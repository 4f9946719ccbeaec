import Ven.Machine

namespace Ven

/-- Where a thread of the system stands: in `run`, behind it, behind a test of `close` that found no handle or one,
behind its `CloseHandle`, or at its end. -/
inductive ThreadPC
  | running
  | returned
  | missed
  | found
  | closed
  | ended
deriving DecidableEq

/-- Where the owner of the object stands. `created` and `named` are behind `_beginthreadex` and behind the assignment
of `thread_id_`, `joining` is behind the test of `join`, and `waiting` is in `WaitForSingleObject`. -/
inductive OwnerPC
  | idle
  | starting
  | created (h : Nat)
  | named (h : Nat)
  | joining
  | waiting (h : Option Nat)
deriving DecidableEq

/-- A thread of the system, with whether its handle is open. -/
structure OsThread where
  pc : ThreadPC
  handle : Bool
deriving DecidableEq

/-- A `Thread` on Windows, its owner and the threads it has started, which are their own handles. `closes` records
who closed which handle, `early` for every return of `join` whether `run` was still going on, and `pulled` whether a
handle was closed while `WaitForSingleObject` waited for it. -/
structure Thread where
  threadId : Nat
  th : Option Nat
  owner : OwnerPC
  threads : List OsThread
  closes : List (Nat × Nat)
  early : List Bool
  pulled : Bool

namespace Thread

/-- `started` tells whether `_beginthreadex` succeeds. -/
inductive Op
  | start
  | join
  | owner (started : Bool)
  | thread (h : Nat)
deriving DecidableEq

def fresh : Thread where
  threadId := 0
  th := none
  owner := .idle
  threads := []
  closes := []
  early := []
  pulled := false

/-- `join` returns to its caller. -/
def joined (s : Thread) : Thread :=
  { s with owner := .idle, early := s.early ++ [s.threads.any fun t => t.pc == .running] }

def open? (s : Thread) (h : Nat) : Bool := (s.threads[h]?).any OsThread.handle

def ended? (s : Thread) (h : Nat) : Bool := (s.threads[h]?).any fun t => t.pc == .ended

/-- The thread has ended, or is going to without having found its handle. -/
def late? (s : Thread) (h : Nat) : Bool := (s.threads[h]?).any fun t => t.pc == .missed || t.pc == .ended

def setPC (s : Thread) (h : Nat) (pc : ThreadPC) : Thread :=
  { s with threads := s.threads.modify h fun t => { t with pc := pc } }

/-- A wait for an open handle lasts until its thread has ended; one for any other handle fails at once. -/
def stepOwner (s : Thread) (started : Bool) : Option Thread :=
  match s.owner with
  | .idle => none
  | .starting =>
    if started then some { s with
      owner := .created s.threads.length
      threads := s.threads ++ [⟨.running, true⟩] }
    else some { s with threadId := 0, th := none, owner := .idle }
  | .created h => some { s with threadId := h + 1, owner := .named h }
  | .named h => some { s with th := some h, owner := .idle }
  | .joining => some { s with owner := .waiting s.th }
  | .waiting none => some s.joined
  | .waiting (some h) => if s.open? h ∧ ¬s.ended? h then none else some s.joined

/-- `run_thread`, with `close` -/
def stepThread (s : Thread) (h : Nat) : Option Thread :=
  match (s.threads[h]?).map OsThread.pc with
  | none => none
  | some .running => some (s.setPC h .returned)
  | some .returned => some (if s.th = none then s.setPC h .missed else s.setPC h .found)
  | some .missed => some (s.setPC h .ended)
  | some .found =>
    match s.th with
    | none => some (s.setPC h .closed)
    | some k => some { s.setPC h .closed with
        threads := (s.setPC h .closed).threads.modify k fun t => { t with handle := false }
        closes := s.closes ++ [(h, k)]
        pulled := s.pulled || decide (s.owner = .waiting (some k)) }
  | some .closed => some { s.setPC h .ended with th := none }
  | some .ended => none

def step (s : Thread) : Op → Option Thread
  | .start =>
    if s.owner ≠ .idle then none
    else if s.th ≠ none then some s else some { s with owner := .starting }
  | .join =>
    if s.owner ≠ .idle then none
    else if s.th = none then some s.joined else some { s with owner := .joining }
  | .owner started => s.stepOwner started
  | .thread h => s.stepThread h

variable {s s' : Thread} {old : List OsThread} {t : OsThread}

/-- The threads that are over, with their handles closed. -/
def Over (old : List OsThread) : Prop := ∀ t ∈ old, t = ⟨.ended, false⟩

theorem Over.concat (h : Over old) : Over (old ++ [⟨.ended, false⟩]) := by
  intro t ht
  rcases List.mem_append.mp ht with hold | hnew
  · exact h t hold
  · exact List.mem_singleton.mp hnew

/-- No thread is there. -/
structure Resting (s : Thread) : Prop where
  settled : Over s.threads
  th : s.th = none
  owner : ∀ h, s.owner ≠ .created h ∧ s.owner ≠ .named h

/-- `start` has not yet stored the handle of its thread, which may be over already. -/
structure Beginning (s : Thread) (old : List OsThread) (t : OsThread) : Prop where
  threads : s.threads = old ++ [t]
  settled : Over old
  th : s.th = none
  owner : s.owner = .created old.length ∨ s.owner = .named old.length
  handle : t.handle = true
  pc : t.pc ≠ .found ∧ t.pc ≠ .closed

/-- The handle of the latest thread is stored. -/
structure Begun (s : Thread) (old : List OsThread) (t : OsThread) : Prop where
  threads : s.threads = old ++ [t]
  settled : Over old
  th : s.th = some old.length
  owner : s.owner = .idle ∨ s.owner = .joining ∨ s.owner = .waiting (some old.length)
  handle : t.handle = true ↔ t.pc ≠ .closed

inductive Shape (s : Thread) : Prop
  | resting (h : Resting s)
  | beginning (old : List OsThread) (t : OsThread) (h : Beginning s old t)
  | begun (old : List OsThread) (t : OsThread) (h : Begun s old t)

theorem modify_last (old : List OsThread) (t : OsThread) (f : OsThread → OsThread) :
    (old ++ [t]).modify old.length f = old ++ [f t] := by
  induction old with
  | nil => rfl
  | cons o old ih => exact congrArg (o :: ·) ih

theorem getElem?_last (old : List OsThread) (t : OsThread) : (old ++ [t])[old.length]? = some t := by
  rw [List.getElem?_append_right (Nat.le_refl _), Nat.sub_self]
  rfl

theorem setPC_last (hthreads : s.threads = old ++ [t]) (pc : ThreadPC) :
    s.setPC old.length pc = { s with threads := old ++ [{ t with pc := pc }] } := by
  unfold setPC
  rw [hthreads, modify_last]

/-- Threads that are over take no step. -/
theorem over_stepThread {h : Nat} (hthreads : s.threads = old ++ [t]) (hover : Over old) (hs : s.stepThread h = some s') :
    h = old.length := by
  rcases Nat.lt_trichotomy h old.length with hlt | heq | hgt
  · have hget : s.threads[h]? = some ⟨.ended, false⟩ := by
      rw [hthreads, List.getElem?_append_left hlt, List.getElem?_eq_getElem hlt, hover _ (List.getElem_mem hlt)]
    unfold stepThread at hs
    rw [hget] at hs
    cases hs
  · exact heq
  · have hget : s.threads[h]? = none := by
      rw [hthreads]
      exact List.getElem?_eq_none (by rw [List.length_append, List.length_singleton]; omega)
    unfold stepThread at hs
    rw [hget] at hs
    cases hs

theorem Resting.stepThread (r : Resting s) (h : Nat) : s.stepThread h = none := by
  unfold Thread.stepThread
  cases hget : s.threads[h]? with
  | none => rfl
  | some t =>
    rw [r.settled t (List.mem_of_getElem? hget)]
    rfl

/-- What the latest thread does, by where it stands. -/
theorem stepThread_last (hthreads : s.threads = old ++ [t]) (hfound : t.pc = .found → s.th = some old.length) :
    s.stepThread old.length = match t.pc with
      | .running => some { s with threads := old ++ [{ t with pc := .returned }] }
      | .returned =>
        some { s with threads := old ++ [{ t with pc := if s.th = none then .missed else .found }] }
      | .missed => some { s with threads := old ++ [{ t with pc := .ended }] }
      | .found => some { s with
          threads := old ++ [⟨.closed, false⟩]
          closes := s.closes ++ [(old.length, old.length)]
          pulled := s.pulled || decide (s.owner = .waiting (some old.length)) }
      | .closed => some { s with threads := old ++ [{ t with pc := .ended }], th := none }
      | .ended => none := by
  unfold stepThread
  rw [hthreads, getElem?_last, Option.map_some]
  cases hpc : t.pc with
  | running => simp only [setPC_last hthreads]
  | returned =>
    simp only [setPC_last hthreads]
    split
    next => rfl
    next => rfl
  | missed => simp only [setPC_last hthreads]
  | found => simp only [hfound hpc, setPC_last hthreads, modify_last]
  | closed => simp only [setPC_last hthreads]
  | ended => rfl

theorem open?_last (hthreads : s.threads = old ++ [t]) : s.open? old.length = t.handle := by
  unfold open?
  rw [hthreads, getElem?_last]
  rfl

theorem ended?_last (hthreads : s.threads = old ++ [t]) : s.ended? old.length = (t.pc == .ended) := by
  unfold ended?
  rw [hthreads, getElem?_last]
  rfl

theorem late?_last (hthreads : s.threads = old ++ [t]) :
    s.late? old.length = true ↔ t.pc = .missed ∨ t.pc = .ended := by
  unfold late?
  rw [hthreads, getElem?_last, Option.any_some, Bool.or_eq_true, beq_iff_eq, beq_iff_eq]

/-- All that a step can do. -/
inductive Move (s : Thread) : Op → Thread → Prop
  | refuse (old : List OsThread) (t : OsThread) (h : Begun s old t) (ho : s.owner = .idle) : Move s .start s
  | start (h : Resting s) (ho : s.owner = .idle) : Move s .start { s with owner := .starting }
  | joinOver (h : Resting s) (ho : s.owner = .idle) : Move s .join s.joined
  | join (old : List OsThread) (t : OsThread) (h : Begun s old t) (ho : s.owner = .idle) :
    Move s .join { s with owner := .joining }
  | spawn (h : Resting s) (ho : s.owner = .starting) : Move s (.owner true) { s with
      owner := .created s.threads.length
      threads := s.threads ++ [⟨.running, true⟩] }
  | fail (h : Resting s) (ho : s.owner = .starting) : Move s (.owner false) { s with threadId := 0, owner := .idle }
  | name (old : List OsThread) (t : OsThread) (h : Beginning s old t) (started : Bool) :
    Move s (.owner started) { s with threadId := old.length + 1, owner := .named old.length }
  | store (old : List OsThread) (t : OsThread) (h : Beginning s old t) (started : Bool) :
    Move s (.owner started) { s with th := some old.length, owner := .idle }
  | waitOver (h : Resting s) (ho : s.owner = .joining) (started : Bool) :
    Move s (.owner started) { s with owner := .waiting none }
  | wait (old : List OsThread) (t : OsThread) (h : Begun s old t) (ho : s.owner = .joining) (started : Bool) :
    Move s (.owner started) { s with owner := .waiting (some old.length) }
  | returnOver (h : Resting s) (k : Option Nat) (ho : s.owner = .waiting k) (started : Bool) :
    Move s (.owner started) s.joined
  | return (old : List OsThread) (t : OsThread) (h : Begun s old t) (ho : s.owner = .waiting (some old.length))
    (hpc : t.pc = .closed ∨ t.pc = .ended) (started : Bool) : Move s (.owner started) s.joined
  | leave (old : List OsThread) (t : OsThread) (h : Beginning s old t ∨ Begun s old t) (hpc : t.pc = .running) :
    Move s (.thread old.length) { s with threads := old ++ [⟨.returned, true⟩] }
  | miss (old : List OsThread) (t : OsThread) (h : Beginning s old t) (hpc : t.pc = .returned) :
    Move s (.thread old.length) { s with threads := old ++ [⟨.missed, true⟩] }
  | stop (old : List OsThread) (t : OsThread) (h : Beginning s old t ∨ Begun s old t) (hpc : t.pc = .missed) :
    Move s (.thread old.length) { s with threads := old ++ [⟨.ended, true⟩] }
  | find (old : List OsThread) (t : OsThread) (h : Begun s old t) (hpc : t.pc = .returned) :
    Move s (.thread old.length) { s with threads := old ++ [⟨.found, true⟩] }
  | close (old : List OsThread) (t : OsThread) (h : Begun s old t) (hpc : t.pc = .found) :
    Move s (.thread old.length) { s with
      threads := old ++ [⟨.closed, false⟩]
      closes := s.closes ++ [(old.length, old.length)]
      pulled := s.pulled || decide (s.owner = .waiting (some old.length)) }
  | clear (old : List OsThread) (t : OsThread) (h : Begun s old t) (hpc : t.pc = .closed) :
    Move s (.thread old.length) { s with threads := old ++ [⟨.ended, false⟩], th := none }

theorem Beginning.owner_ne (h : Beginning s old t) :
    s.owner ≠ .idle ∧ s.owner ≠ .starting ∧ s.owner ≠ .joining ∧ ∀ k, s.owner ≠ .waiting k := by
  rcases h.owner with ho | ho
  all_goals
    rw [ho]
    exact ⟨nofun, nofun, nofun, fun _ => nofun⟩

theorem Begun.owner_ne (h : Begun s old t) :
    s.owner ≠ .starting ∧ (∀ k, s.owner ≠ .created k) ∧ (∀ k, s.owner ≠ .named k) ∧
      ∀ k, s.owner = .waiting k → k = some old.length := by
  rcases h.owner with ho | ho | ho
  all_goals
    rw [ho]
    refine ⟨nofun, fun _ => nofun, fun _ => nofun, fun k hk => ?_⟩
    cases hk
  rfl

theorem Shape.moveThread (shape : Shape s) {k : Nat} (hs : s.stepThread k = some s') : Move s (.thread k) s' := by
  cases shape with
  | resting h =>
    rw [h.stepThread] at hs
    cases hs
  | beginning old t h =>
    cases over_stepThread h.threads h.settled hs
    rw [stepThread_last h.threads fun hpc => absurd hpc h.pc.1] at hs
    cases hpc : t.pc with
    | running =>
      rw [hpc] at hs
      cases Option.some.inj hs
      rw [h.handle]
      exact .leave old t (Or.inl h) hpc
    | returned =>
      have hend : (if s.th = none then ThreadPC.missed else .found) = .missed := if_pos h.th
      rw [hpc, hend, h.handle] at hs
      cases Option.some.inj hs
      exact .miss old t h hpc
    | missed =>
      rw [hpc, h.handle] at hs
      cases Option.some.inj hs
      exact .stop old t (Or.inl h) hpc
    | found => exact absurd hpc h.pc.1
    | closed => exact absurd hpc h.pc.2
    | ended =>
      rw [hpc] at hs
      cases hs
  | begun old t h =>
    cases over_stepThread h.threads h.settled hs
    rw [stepThread_last h.threads fun _ => h.th] at hs
    cases hpc : t.pc with
    | running =>
      have hhandle : t.handle = true := h.handle.mpr (by rw [hpc]; exact nofun)
      rw [hpc, hhandle] at hs
      cases Option.some.inj hs
      exact .leave old t (Or.inr h) hpc
    | returned =>
      have hhandle : t.handle = true := h.handle.mpr (by rw [hpc]; exact nofun)
      have hfound : (if s.th = none then ThreadPC.missed else .found) = .found := if_neg (by rw [h.th]; exact nofun)
      rw [hpc, hfound, hhandle] at hs
      cases Option.some.inj hs
      exact .find old t h hpc
    | missed =>
      have hhandle : t.handle = true := h.handle.mpr (by rw [hpc]; exact nofun)
      rw [hpc, hhandle] at hs
      cases Option.some.inj hs
      exact .stop old t (Or.inr h) hpc
    | found =>
      rw [hpc] at hs
      cases Option.some.inj hs
      exact .close old t h hpc
    | closed =>
      have hhandle : t.handle = false := Bool.eq_false_iff.mpr fun hopen => h.handle.mp hopen hpc
      rw [hpc, hhandle] at hs
      cases Option.some.inj hs
      exact .clear old t h hpc
    | ended =>
      rw [hpc] at hs
      cases hs

theorem Shape.moveOwner (shape : Shape s) {started : Bool} (hs : s.stepOwner started = some s') :
    Move s (.owner started) s' := by
  unfold stepOwner at hs
  split at hs
  next => cases hs
  next ho =>
    cases shape with
    | resting h =>
      cases started with
      | true =>
        cases Option.some.inj hs
        exact .spawn h ho
      | false =>
        cases Option.some.inj hs
        rw [← h.th]
        exact .fail h ho
    | beginning old t h => exact absurd ho h.owner_ne.2.1
    | begun old t h => exact absurd ho h.owner_ne.1
  next k ho =>
    cases Option.some.inj hs
    cases shape with
    | resting h => exact absurd ho (h.owner k).1
    | beginning old t h =>
      have hk : k = old.length := by
        rcases h.owner with ho' | ho'
        · exact OwnerPC.created.inj (ho.symm.trans ho')
        · rw [ho] at ho'
          cases ho'
      rw [hk]
      exact .name old t h started
    | begun old t h => exact absurd ho (h.owner_ne.2.1 k)
  next k ho =>
    cases Option.some.inj hs
    cases shape with
    | resting h => exact absurd ho (h.owner k).2
    | beginning old t h =>
      have hk : k = old.length := by
        rcases h.owner with ho' | ho'
        · rw [ho] at ho'
          cases ho'
        · exact OwnerPC.named.inj (ho.symm.trans ho')
      rw [hk]
      exact .store old t h started
    | begun old t h => exact absurd ho (h.owner_ne.2.2.1 k)
  next ho =>
    cases Option.some.inj hs
    cases shape with
    | resting h =>
      have hwait : OwnerPC.waiting s.th = .waiting none := congrArg OwnerPC.waiting h.th
      rw [hwait]
      exact .waitOver h ho started
    | beginning old t h => exact absurd ho h.owner_ne.2.2.1
    | begun old t h =>
      have hwait : OwnerPC.waiting s.th = .waiting (some old.length) := congrArg OwnerPC.waiting h.th
      rw [hwait]
      exact .wait old t h ho started
  next ho =>
    cases Option.some.inj hs
    cases shape with
    | resting h => exact .returnOver h none ho started
    | beginning old t h => exact absurd ho (h.owner_ne.2.2.2 none)
    | begun old t h => cases h.owner_ne.2.2.2 none ho
  next k ho =>
    split at hs
    next => cases hs
    next hfree =>
      cases Option.some.inj hs
      cases shape with
      | resting h => exact .returnOver h (some k) ho started
      | beginning old t h => exact absurd ho (h.owner_ne.2.2.2 (some k))
      | begun old t h =>
        cases h.owner_ne.2.2.2 (some k) ho
        refine .return old t h ho ?_ started
        rw [open?_last h.threads, ended?_last h.threads, h.handle, beq_iff_eq] at hfree
        by_cases hpc : t.pc = .closed
        · exact Or.inl hpc
        · exact Or.inr (Classical.not_not.mp fun hne => hfree ⟨hpc, hne⟩)

theorem Shape.move (shape : Shape s) {op : Op} (hs : s.step op = some s') : Move s op s' := by
  cases op with
  | start =>
    simp only [Thread.step] at hs
    split at hs
    next => cases hs
    next hidle =>
      have ho := Classical.not_not.mp hidle
      split at hs
      next hth =>
        cases Option.some.inj hs
        cases shape with
        | resting h => exact absurd h.th hth
        | beginning old t h => exact absurd h.th hth
        | begun old t h => exact .refuse old t h ho
      next hth =>
        cases Option.some.inj hs
        cases shape with
        | resting h => exact .start h ho
        | beginning old t h => exact absurd ho h.owner_ne.1
        | begun old t h => exact absurd (by rw [h.th]; exact nofun) hth
  | join =>
    simp only [Thread.step] at hs
    split at hs
    next => cases hs
    next hidle =>
      have ho := Classical.not_not.mp hidle
      split at hs
      next hth =>
        cases Option.some.inj hs
        cases shape with
        | resting h => exact .joinOver h ho
        | beginning old t h => exact absurd ho h.owner_ne.1
        | begun old t h =>
          rw [h.th] at hth
          cases hth
      next hth =>
        cases Option.some.inj hs
        cases shape with
        | resting h => exact absurd h.th hth
        | beginning old t h => exact absurd h.th hth
        | begun old t h => exact .join old t h ho
  | owner started => exact shape.moveOwner hs
  | thread k => exact shape.moveThread hs

theorem Shape.latest (h : Beginning s old t ∨ Begun s old t) : Shape s := h.elim (.beginning old t) (.begun old t)

/-- The latest thread goes on without having found its handle, whether or not that is stored. -/
theorem latest_goes (h : Beginning s old t ∨ Begun s old t) (pc : ThreadPC) (hpc : pc ≠ .found ∧ pc ≠ .closed) :
    Beginning { s with threads := old ++ [⟨pc, true⟩] } old ⟨pc, true⟩ ∨
      Begun { s with threads := old ++ [⟨pc, true⟩] } old ⟨pc, true⟩ := by
  rcases h with h | h
  · exact Or.inl ⟨rfl, h.settled, h.th, h.owner, rfl, hpc⟩
  · exact Or.inr ⟨rfl, h.settled, h.th, h.owner, ⟨fun _ => hpc.2, fun _ => rfl⟩⟩

theorem Move.shape {op : Op} (m : Move s op s') : Shape s' := by
  cases m with
  | refuse old t h ho => exact .begun old t h
  | start h ho => exact .resting ⟨h.settled, h.th, fun _ => ⟨nofun, nofun⟩⟩
  | joinOver h ho => exact .resting ⟨h.settled, h.th, fun _ => ⟨nofun, nofun⟩⟩
  | join old t h ho => exact .begun old t ⟨h.threads, h.settled, h.th, Or.inr (Or.inl rfl), h.handle⟩
  | spawn h ho => exact .beginning s.threads _ ⟨rfl, h.settled, h.th, Or.inl rfl, rfl, nofun, nofun⟩
  | fail h ho => exact .resting ⟨h.settled, h.th, fun _ => ⟨nofun, nofun⟩⟩
  | name old t h started => exact .beginning old t ⟨h.threads, h.settled, h.th, Or.inr rfl, h.handle, h.pc⟩
  | store old t h started =>
    exact .begun old t ⟨h.threads, h.settled, rfl, Or.inl rfl, ⟨fun _ => h.pc.2, fun _ => h.handle⟩⟩
  | waitOver h ho started => exact .resting ⟨h.settled, h.th, fun _ => ⟨nofun, nofun⟩⟩
  | wait old t h ho started => exact .begun old t ⟨h.threads, h.settled, h.th, Or.inr (Or.inr rfl), h.handle⟩
  | returnOver h k ho started => exact .resting ⟨h.settled, h.th, fun _ => ⟨nofun, nofun⟩⟩
  | «return» old t h ho hpc started => exact .begun old t ⟨h.threads, h.settled, h.th, Or.inl rfl, h.handle⟩
  | leave old t h hpc => exact .latest (latest_goes h _ ⟨nofun, nofun⟩)
  | miss old t h hpc => exact .beginning old _ ⟨rfl, h.settled, h.th, h.owner, rfl, nofun, nofun⟩
  | stop old t h hpc => exact .latest (latest_goes h _ ⟨nofun, nofun⟩)
  | find old t h hpc => exact .begun old _ ⟨rfl, h.settled, h.th, h.owner, ⟨fun _ => nofun, fun _ => rfl⟩⟩
  | close old t h hpc => exact .begun old _ ⟨rfl, h.settled, h.th, h.owner, ⟨nofun, fun hne => absurd rfl hne⟩⟩
  | clear old t h hpc =>
    refine .resting ⟨h.settled.concat, rfl, fun k => ⟨?_, ?_⟩⟩
    · exact h.owner_ne.2.1 k
    · exact h.owner_ne.2.2.1 k

theorem shape_fresh : Shape fresh := .resting ⟨nofun, rfl, fun _ => ⟨nofun, nofun⟩⟩

theorem Shape.step (shape : Shape s) {op : Op} (hs : s.step op = some s') : Shape s' := (shape.move hs).shape

/-- What is on record: no `join` has returned too early, and whatever was closed was closed once, by its own thread. -/
structure Recorded (s : Thread) : Prop where
  early : ∀ e ∈ s.early, e = false
  own : ∀ c ∈ s.closes, c.1 = c.2 ∧ s.threads[c.2]? ≠ none ∧ s.open? c.2 = false
  once : s.closes.Nodup

/-- A `join` that returns while `run` goes on would be on record. -/
theorem early_joined (h : ∀ e ∈ s.early, e = false) (hover : ∀ t ∈ s.threads, t.pc ≠ .running) :
    ∀ e ∈ s.joined.early, e = false := by
  intro e he
  rcases List.mem_append.mp he with hold | hnew
  · exact h e hold
  · rw [List.mem_singleton.mp hnew, List.any_eq_false]
    exact fun t ht => by simp [hover t ht]

theorem Over.not_running (h : Over old) : ∀ t ∈ old, t.pc ≠ .running := by
  intro t ht
  rw [h t ht]
  exact nofun

/-- A handle that was closed stays closed while the latest thread goes on. -/
theorem Recorded.own_last (r : Recorded s) (hthreads : s.threads = old ++ [t]) {t' : OsThread} {c : Nat × Nat}
    (hin : c ∈ s.closes) (hlater : t.handle = false → t'.handle = false) :
    (old ++ [t'])[c.2]? ≠ none ∧ ((old ++ [t'])[c.2]?).any OsThread.handle = false := by
  obtain ⟨_, hsome, hclosed⟩ := r.own c hin
  unfold open? at hclosed
  rw [hthreads] at hsome hclosed
  rcases Nat.lt_trichotomy c.2 old.length with hlt | heq | hgt
  · rw [List.getElem?_append_left hlt] at hsome hclosed ⊢
    exact ⟨hsome, hclosed⟩
  · rw [heq, getElem?_last] at hclosed ⊢
    exact ⟨nofun, hlater hclosed⟩
  · exact absurd (List.getElem?_eq_none (by rw [List.length_append, List.length_singleton]; omega)) hsome

/-- The latest thread goes on. -/
theorem Recorded.goes (r : Recorded s) (hthreads : s.threads = old ++ [t]) {t' : OsThread} {th : Option Nat}
    (hlater : t.handle = false → t'.handle = false) : Recorded { s with threads := old ++ [t'], th := th } where
  early := r.early
  own c hc := ⟨(r.own c hc).1, r.own_last hthreads hc hlater⟩
  once := r.once

theorem Recorded.step (r : Recorded s) (shape : Shape s) {op : Op} (hs : s.step op = some s') : Recorded s' := by
  cases shape.move hs with
  | refuse old t h ho => exact r
  | start h ho => exact ⟨r.early, r.own, r.once⟩
  | joinOver h ho => exact ⟨early_joined r.early h.settled.not_running, r.own, r.once⟩
  | join old t h ho => exact ⟨r.early, r.own, r.once⟩
  | spawn h ho =>
    refine ⟨r.early, fun c hc => ?_, r.once⟩
    obtain ⟨hown, hsome, hclosed⟩ := r.own c hc
    have hlt : c.2 < s.threads.length := by
      by_contra hge
      exact hsome (List.getElem?_eq_none (Nat.le_of_not_lt hge))
    unfold open? at hclosed ⊢
    rw [List.getElem?_append_left hlt]
    exact ⟨hown, hsome, hclosed⟩
  | fail h ho => exact ⟨r.early, r.own, r.once⟩
  | name old t h started => exact ⟨r.early, r.own, r.once⟩
  | store old t h started => exact ⟨r.early, r.own, r.once⟩
  | waitOver h ho started => exact ⟨r.early, r.own, r.once⟩
  | wait old t h ho started => exact ⟨r.early, r.own, r.once⟩
  | returnOver h k ho started => exact ⟨early_joined r.early h.settled.not_running, r.own, r.once⟩
  | «return» old t h ho hpc started =>
    refine ⟨early_joined r.early fun x hx => ?_, r.own, r.once⟩
    rw [h.threads] at hx
    rcases List.mem_append.mp hx with hold | hnew
    · exact h.settled.not_running x hold
    · rw [List.mem_singleton.mp hnew]
      rcases hpc with hpc | hpc
      all_goals
        rw [hpc]
        exact nofun
  | leave old t h hpc =>
    have hopen : t.handle = true := by
      rcases h with h | h
      · exact h.handle
      · exact h.handle.mpr (by rw [hpc]; exact nofun)
    have hthreads : s.threads = old ++ [t] := h.elim Beginning.threads Begun.threads
    exact r.goes hthreads (fun hclosed => by rw [hopen] at hclosed; cases hclosed)
  | miss old t h hpc => exact r.goes h.threads (fun hclosed => by rw [h.handle] at hclosed; cases hclosed)
  | stop old t h hpc =>
    have hopen : t.handle = true := by
      rcases h with h | h
      · exact h.handle
      · exact h.handle.mpr (by rw [hpc]; exact nofun)
    have hthreads : s.threads = old ++ [t] := h.elim Beginning.threads Begun.threads
    exact r.goes hthreads (fun hclosed => by rw [hopen] at hclosed; cases hclosed)
  | find old t h hpc =>
    have hopen : t.handle = true := h.handle.mpr (by rw [hpc]; exact nofun)
    exact r.goes h.threads (fun hclosed => by rw [hopen] at hclosed; cases hclosed)
  | close old t h hpc =>
    have hopen : s.open? old.length = true := by
      rw [open?_last h.threads]
      exact h.handle.mpr (by rw [hpc]; exact nofun)
    refine ⟨r.early, fun c hc => ?_, ?_⟩
    · rcases List.mem_append.mp hc with hc | hc
      · exact ⟨(r.own c hc).1, r.own_last h.threads hc fun _ => rfl⟩
      · rw [List.mem_singleton.mp hc]
        unfold open?
        rw [getElem?_last]
        exact ⟨rfl, nofun, rfl⟩
    · refine List.nodup_append.mpr ⟨r.once, List.pairwise_singleton _ _, fun c hc d hd => ?_⟩
      rw [List.mem_singleton.mp hd]
      rintro rfl
      have hclosed := (r.own _ hc).2.2
      rw [hopen] at hclosed
      cases hclosed
  | clear old t h hpc => exact r.goes h.threads (fun _ => rfl)

theorem recorded_fresh : Recorded fresh := ⟨nofun, nofun, List.nodup_nil⟩

theorem Shape.closed_pc (shape : Shape s) {k : Nat} (hsome : s.threads[k]? ≠ none) (hclosed : s.open? k = false) :
    (s.threads[k]?).map OsThread.pc = some .closed ∨ s.ended? k = true := by
  obtain ⟨x, hx⟩ := Option.ne_none_iff_exists'.mp hsome
  have hin := List.mem_of_getElem? hx
  unfold open? at hclosed
  unfold ended?
  rw [hx] at hclosed ⊢
  have settled : ∀ {old}, Over old → x ∈ old → (some x).map OsThread.pc = some .closed ∨
      (some x).any (fun t => t.pc == .ended) = true := by
    intro old hover hold
    rw [hover x hold]
    exact Or.inr rfl
  cases shape with
  | resting h => exact settled h.settled hin
  | beginning old t h =>
    rw [h.threads] at hin
    rcases List.mem_append.mp hin with hold | hnew
    · exact settled h.settled hold
    · rw [List.mem_singleton.mp hnew] at hclosed
      rw [Option.any_some, h.handle] at hclosed
      cases hclosed
  | begun old t h =>
    rw [h.threads] at hin
    rcases List.mem_append.mp hin with hold | hnew
    · exact settled h.settled hold
    · rw [List.mem_singleton.mp hnew] at hclosed ⊢
      rw [Option.any_some] at hclosed
      refine Or.inl (congrArg some (Classical.not_not.mp fun hne => ?_))
      rw [h.handle.mpr hne] at hclosed
      cases hclosed

/-- However the owner and its threads are interleaved, `join` returns only when `run` has, and a handle is closed at
most once, by the thread it belongs to and behind its `run`. -/
theorem joins_and_closes {ops : List Op} (run : Machine.exec step fresh ops = some s) :
    (∀ e ∈ s.early, e = false) ∧ s.closes.Nodup ∧
      ∀ c ∈ s.closes, c.1 = c.2 ∧ ((s.threads[c.2]?).map OsThread.pc = some .closed ∨ s.ended? c.2 = true) := by
  have keep : ∀ (m : Thread) op m', (Shape m ∧ Recorded m) → m.step op = some m' → Shape m' ∧ Recorded m' :=
    fun m op m' h hs => ⟨h.1.step hs, h.2.step h.1 hs⟩
  obtain ⟨shape, r⟩ := Machine.exec_invariant keep ⟨shape_fresh, recorded_fresh⟩ run
  refine ⟨r.early, r.once, fun c hc => ?_⟩
  obtain ⟨hown, hsome, hclosed⟩ := r.own c hc
  exact ⟨hown, shape.closed_pc hsome hclosed⟩

/-- The owner joins while `run` goes on. -/
theorem joins_and_closes_sample :
    ∃ s, Machine.exec step fresh [.start, .owner true, .owner true, .owner true, .join, .owner true, .thread 0,
        .thread 0, .thread 0, .owner true, .thread 0] = some s ∧
      s.early = [false] ∧ s.closes = [(0, 0)] ∧ s.closes.Nodup := by
  have run : ∃ s, Machine.exec step fresh [.start, .owner true, .owner true, .owner true, .join, .owner true, .thread 0,
      .thread 0, .thread 0, .owner true, .thread 0] = some s ∧ s.early = [false] ∧ s.closes = [(0, 0)] :=
    ⟨_, rfl, rfl, rfl⟩
  obtain ⟨s, run, hearly, hcloses⟩ := run
  exact ⟨s, run, hearly, hcloses, (joins_and_closes run).2.1⟩

/-- `join` waits for the thread, whose handle is open and will be found; or a handle has been closed under a wait. -/
def Pending (h : Nat) (s : Thread) : Prop :=
  s.pulled = true ∨ s.owner = .waiting (some h) ∧ s.open? h = true ∧ s.late? h = false

theorem pulled_step (hpulled : s.pulled = true) (shape : Shape s) {op : Op} (hs : s.step op = some s') :
    s'.pulled = true := by
  cases shape.move hs with
  | close old t h hpc =>
    rw [hpulled]
    rfl
  | _ => exact hpulled

/-- Such a wait can only end by the `CloseHandle` of the thread it waits for. -/
theorem Pending.step {h : Nat} (pending : Pending h s) (shape : Shape s) {op : Op} (hs : s.step op = some s') :
    Pending h s' := by
  rcases pending with hpulled | ⟨ho, hopen, hlate⟩
  · exact Or.inl (pulled_step hpulled shape hs)
  · have hbegun : ∃ old t, h = old.length ∧ Begun s old t := by
      cases shape with
      | resting r =>
        unfold open? at hopen
        cases hget : s.threads[h]? with
        | none =>
          rw [hget] at hopen
          cases hopen
        | some x =>
          rw [hget, r.settled x (List.mem_of_getElem? hget)] at hopen
          cases hopen
      | beginning old t b => exact absurd ho (b.owner_ne.2.2.2 (some h))
      | begun old t b => exact ⟨old, t, Option.some.inj (b.owner_ne.2.2.2 (some h) ho), b⟩
    obtain ⟨old, t, rfl, b⟩ := hbegun
    have hidle : s.owner ≠ .idle := by
      rw [ho]
      exact nofun
    cases op with
    | start =>
      rw [Thread.step, if_pos hidle] at hs
      cases hs
    | join =>
      rw [Thread.step, if_pos hidle] at hs
      cases hs
    | owner started =>
      have hended : ¬s.ended? old.length = true := by
        rw [ended?_last b.threads, beq_iff_eq]
        intro hpc
        rw [(late?_last b.threads).mpr (Or.inr hpc)] at hlate
        cases hlate
      have hblocked : s.open? old.length = true ∧ ¬s.ended? old.length = true := ⟨hopen, hended⟩
      simp only [Thread.step, stepOwner, ho, if_pos hblocked] at hs
      cases hs
    | thread k =>
      simp only [Thread.step] at hs
      cases over_stepThread b.threads b.settled hs
      rw [stepThread_last b.threads fun _ => b.th] at hs
      rw [open?_last b.threads] at hopen
      have notLate : ∀ {pc : ThreadPC}, pc ≠ .missed → pc ≠ .ended →
          late? { s with threads := old ++ [⟨pc, t.handle⟩] } old.length = false := by
        intro pc hmissed hend
        rw [Bool.eq_false_iff]
        exact fun h => ((late?_last rfl).mp h).elim hmissed hend
      cases hpc : t.pc with
      | running =>
        rw [hpc] at hs
        cases Option.some.inj hs
        refine Or.inr ⟨ho, ?_, notLate (by exact nofun) (by exact nofun)⟩
        rw [open?_last rfl]
        exact hopen
      | returned =>
        have hfound : (if s.th = none then ThreadPC.missed else .found) = .found := if_neg (by rw [b.th]; exact nofun)
        rw [hpc, hfound] at hs
        cases Option.some.inj hs
        refine Or.inr ⟨ho, ?_, notLate (by exact nofun) (by exact nofun)⟩
        rw [open?_last rfl]
        exact hopen
      | missed =>
        rw [(late?_last b.threads).mpr (Or.inl hpc)] at hlate
        cases hlate
      | found =>
        rw [hpc] at hs
        cases Option.some.inj hs
        left
        dsimp only
        rw [ho, decide_eq_true rfl, Bool.or_true]
      | closed => exact absurd hpc (b.handle.mp hopen)
      | ended =>
        rw [(late?_last b.threads).mpr (Or.inr hpc)] at hlate
        cases hlate

/-- A `join` that begins to wait for an open handle which its thread has not looked for in vain does not return before
that handle has been closed under its wait. -/
theorem waiting_join_pulled {ops : List Op} {h : Nat} (run : Machine.exec step fresh ops = some s)
    (ho : s.owner = .waiting (some h)) (hopen : s.open? h = true) (hlate : s.late? h = false) {more : List Op}
    (later : Machine.exec step s more = some s') (back : s'.owner ≠ .waiting (some h)) : s'.pulled = true := by
  have shape : Shape s := Machine.exec_invariant (fun _ _ _ shape hs => shape.step hs) shape_fresh run
  have keep : ∀ (m : Thread) op m', (Shape m ∧ Pending h m) → m.step op = some m' → Shape m' ∧ Pending h m' :=
    fun m op m' i hs => ⟨i.1.step hs, i.2.step i.1 hs⟩
  obtain ⟨_, hpulled | ⟨ho', _⟩⟩ := Machine.exec_invariant keep ⟨shape, Or.inr ⟨ho, hopen, hlate⟩⟩ later
  · exact hpulled
  · exact absurd ho' back

theorem waiting_join_pulled_sample :
    ∃ s s', Machine.exec step fresh [.start, .owner true, .owner true, .owner true, .join, .owner true] = some s ∧
      Machine.exec step s [.thread 0, .thread 0, .thread 0, .owner true, .thread 0] = some s' ∧ s'.owner = .idle ∧
      s'.early = [false] ∧ s'.pulled = true := by
  have run : Machine.exec step fresh [.start, .owner true, .owner true, .owner true, .join, .owner true] =
      some ⟨1, some 0, .waiting (some 0), [⟨.running, true⟩], [], [], false⟩ := rfl
  have later : ∃ s', Machine.exec step ⟨1, some 0, .waiting (some 0), [⟨.running, true⟩], [], [], false⟩
      [.thread 0, .thread 0, .thread 0, .owner true, .thread 0] = some s' ∧ s'.owner = .idle ∧ s'.early = [false] :=
    ⟨_, rfl, rfl, rfl⟩
  obtain ⟨s', later, hidle, hearly⟩ := later
  exact ⟨_, s', run, later, hidle, hearly,
    waiting_join_pulled run rfl rfl rfl later (by rw [hidle]; exact nofun)⟩

/-- No thread looks for its handle before `start` has stored it. -/
def Prompt (s : Thread) : Op → Prop
  | .thread h => (s.threads[h]?).map OsThread.pc = some .returned → s.th ≠ none
  | _ => True

instance (s : Thread) : ∀ op, Decidable (s.Prompt op)
  | .thread h => inferInstanceAs (Decidable ((s.threads[h]?).map OsThread.pc = some .returned → s.th ≠ none))
  | .start => isTrue trivial
  | .join => isTrue trivial
  | .owner _ => isTrue trivial

/-- The handle that is stored, or about to be, is that of a thread which does not look for it any more. -/
def Stale (s : Thread) : Prop := ∃ h, s.late? h = true ∧ (s.th = some h ∨ s.owner = .created h ∨ s.owner = .named h)

theorem Resting.not_stale (r : Resting s) : ¬Stale s := by
  rintro ⟨h, _, hth | ho | ho⟩
  · rw [r.th] at hth
    cases hth
  · exact (r.owner h).1 ho
  · exact (r.owner h).2 ho

theorem Beginning.stale_iff (b : Beginning s old t) : Stale s ↔ t.pc = .missed ∨ t.pc = .ended := by
  constructor
  · rintro ⟨h, hlate, hth | ho⟩
    · rw [b.th] at hth
      cases hth
    · have hh : h = old.length := by
        rcases b.owner with ho' | ho'
        · rw [ho'] at ho
          rcases ho with ho | ho
          · exact (OwnerPC.created.inj ho).symm
          · cases ho
        · rw [ho'] at ho
          rcases ho with ho | ho
          · cases ho
          · exact (OwnerPC.named.inj ho).symm
      rw [hh] at hlate
      exact (late?_last b.threads).mp hlate
  · exact fun hpc => ⟨old.length, (late?_last b.threads).mpr hpc, Or.inr b.owner⟩

theorem Begun.stale_iff (b : Begun s old t) : Stale s ↔ t.pc = .missed ∨ t.pc = .ended := by
  constructor
  · rintro ⟨h, hlate, hth | ho | ho⟩
    · rw [Option.some.inj (hth.symm.trans b.th)] at hlate
      exact (late?_last b.threads).mp hlate
    · exact absurd ho (b.owner_ne.2.1 h)
    · exact absurd ho (b.owner_ne.2.2.1 h)
  · exact fun hpc => ⟨old.length, (late?_last b.threads).mpr hpc, Or.inl b.th⟩

theorem latest_stale_iff (h : Beginning s old t ∨ Begun s old t) : Stale s ↔ t.pc = .missed ∨ t.pc = .ended :=
  h.elim Beginning.stale_iff Begun.stale_iff

theorem latest_threads (h : Beginning s old t ∨ Begun s old t) : s.threads = old ++ [t] :=
  h.elim Beginning.threads Begun.threads

/-- Where a thread stands that `Prompt` asks for. -/
theorem prompt_last (hthreads : s.threads = old ++ [t]) :
    s.Prompt (.thread old.length) ↔ (t.pc = .returned → s.th ≠ none) := by
  change ((s.threads[old.length]?).map OsThread.pc = some .returned → s.th ≠ none) ↔ _
  rw [hthreads, getElem?_last, Option.map_some, Option.some.injEq]

/-- A handle becomes stale by the one step that `Prompt` rules out, and stays so. -/
theorem Move.stale {op : Op} (m : Move s op s') :
    s.Prompt op ∧ (Stale s' ↔ Stale s) ∨ ¬s.Prompt op ∧ Stale s' := by
  have resting : ∀ {m : Thread}, Resting s → Resting m → (Stale m ↔ Stale s) :=
    fun h h' => ⟨fun hs => absurd hs h'.not_stale, fun hs => absurd hs h.not_stale⟩
  cases m with
  | refuse old t h ho => exact Or.inl ⟨trivial, Iff.rfl⟩
  | start h ho => exact Or.inl ⟨trivial, resting h ⟨h.settled, h.th, fun _ => ⟨nofun, nofun⟩⟩⟩
  | joinOver h ho => exact Or.inl ⟨trivial, resting h ⟨h.settled, h.th, fun _ => ⟨nofun, nofun⟩⟩⟩
  | join old t h ho =>
    have h' : Begun { s with owner := .joining } old t := ⟨h.threads, h.settled, h.th, Or.inr (Or.inl rfl), h.handle⟩
    exact Or.inl ⟨trivial, h'.stale_iff.trans h.stale_iff.symm⟩
  | spawn h ho =>
    have h' : Beginning { s with
        owner := .created s.threads.length
        threads := s.threads ++ [⟨.running, true⟩] } s.threads ⟨.running, true⟩ :=
      ⟨rfl, h.settled, h.th, Or.inl rfl, rfl, nofun, nofun⟩
    refine Or.inl ⟨trivial, fun hs => ?_, fun hs => absurd hs h.not_stale⟩
    rcases h'.stale_iff.mp hs with hpc | hpc
    · cases hpc
    · cases hpc
  | fail h ho => exact Or.inl ⟨trivial, resting h ⟨h.settled, h.th, fun _ => ⟨nofun, nofun⟩⟩⟩
  | name old t h started =>
    have h' : Beginning { s with threadId := old.length + 1, owner := .named old.length } old t :=
      ⟨h.threads, h.settled, h.th, Or.inr rfl, h.handle, h.pc⟩
    exact Or.inl ⟨trivial, h'.stale_iff.trans h.stale_iff.symm⟩
  | store old t h started =>
    have h' : Begun { s with th := some old.length, owner := .idle } old t :=
      ⟨h.threads, h.settled, rfl, Or.inl rfl, ⟨fun _ => h.pc.2, fun _ => h.handle⟩⟩
    exact Or.inl ⟨trivial, h'.stale_iff.trans h.stale_iff.symm⟩
  | waitOver h ho started => exact Or.inl ⟨trivial, resting h ⟨h.settled, h.th, fun _ => ⟨nofun, nofun⟩⟩⟩
  | wait old t h ho started =>
    have h' : Begun { s with owner := .waiting (some old.length) } old t :=
      ⟨h.threads, h.settled, h.th, Or.inr (Or.inr rfl), h.handle⟩
    exact Or.inl ⟨trivial, h'.stale_iff.trans h.stale_iff.symm⟩
  | returnOver h k ho started => exact Or.inl ⟨trivial, resting h ⟨h.settled, h.th, fun _ => ⟨nofun, nofun⟩⟩⟩
  | «return» old t h ho hpc started =>
    have h' : Begun s.joined old t := ⟨h.threads, h.settled, h.th, Or.inl rfl, h.handle⟩
    exact Or.inl ⟨trivial, h'.stale_iff.trans h.stale_iff.symm⟩
  | leave old t h hpc =>
    have hrunning : t.pc ≠ .returned ∧ ¬(t.pc = .missed ∨ t.pc = .ended) := by
      rw [hpc]
      exact ⟨nofun, by decide⟩
    refine Or.inl ⟨(prompt_last (latest_threads h)).mpr fun hr => absurd hr hrunning.1, ?_⟩
    rw [latest_stale_iff (latest_goes h .returned ⟨nofun, nofun⟩), latest_stale_iff h]
    exact ⟨fun he => absurd he (by decide), fun he => absurd he hrunning.2⟩
  | miss old t h hpc =>
    have h' : Beginning { s with threads := old ++ [⟨.missed, true⟩] } old ⟨.missed, true⟩ :=
      ⟨rfl, h.settled, h.th, h.owner, rfl, nofun, nofun⟩
    exact Or.inr ⟨fun hprompt => (prompt_last h.threads).mp hprompt hpc h.th, h'.stale_iff.mpr (Or.inl rfl)⟩
  | stop old t h hpc =>
    have hmissed : t.pc ≠ .returned := by
      rw [hpc]
      exact nofun
    refine Or.inl ⟨(prompt_last (latest_threads h)).mpr fun hr => absurd hr hmissed, ?_⟩
    rw [latest_stale_iff (latest_goes h .ended ⟨nofun, nofun⟩), latest_stale_iff h]
    exact ⟨fun _ => Or.inl hpc, fun _ => Or.inr rfl⟩
  | find old t h hpc =>
    have h' : Begun { s with threads := old ++ [⟨.found, true⟩] } old ⟨.found, true⟩ :=
      ⟨rfl, h.settled, h.th, h.owner, ⟨fun _ => nofun, fun _ => rfl⟩⟩
    refine Or.inl ⟨(prompt_last h.threads).mpr fun _ => by rw [h.th]; exact nofun, ?_⟩
    rw [h'.stale_iff, h.stale_iff, hpc]
    decide
  | close old t h hpc =>
    have h' : Begun { s with
        threads := old ++ [⟨.closed, false⟩]
        closes := s.closes ++ [(old.length, old.length)]
        pulled := s.pulled || decide (s.owner = .waiting (some old.length)) } old ⟨.closed, false⟩ :=
      ⟨rfl, h.settled, h.th, h.owner, ⟨nofun, fun hne => absurd rfl hne⟩⟩
    refine Or.inl ⟨(prompt_last h.threads).mpr fun _ => by rw [h.th]; exact nofun, ?_⟩
    rw [h'.stale_iff, h.stale_iff, hpc]
    decide
  | clear old t h hpc =>
    have h' : Resting { s with threads := old ++ [⟨.ended, false⟩], th := none } :=
      ⟨h.settled.concat, rfl, fun k => ⟨h.owner_ne.2.1 k, h.owner_ne.2.2.1 k⟩⟩
    refine Or.inl ⟨(prompt_last h.threads).mpr fun _ => by rw [h.th]; exact nofun, ?_⟩
    rw [h.stale_iff, hpc]
    exact ⟨fun hs => absurd hs h'.not_stale, fun hs => absurd hs (by decide)⟩

/-- Once its threads are over, a `Thread` has closed every handle and can be started again exactly if none of them was
so quick that it looked for its handle before `start` had stored it; after that, `start` does nothing any more. -/
theorem restartable_iff {ops : List Op} (run : Machine.exec step fresh ops = some s) (idle : s.owner = .idle)
    (settled : ∀ t ∈ s.threads, t.pc = .ended) :
    (Machine.Along step Prompt fresh ops ↔ s.th = none ∧ ∀ t ∈ s.threads, t.handle = false) ∧
      (¬Machine.Along step Prompt fresh ops → s.step .start = some s) := by
  have keep : ∀ (m : Thread) op m', (Shape m ∧ ¬Stale m) → m.Prompt op → m.step op = some m' → Shape m' ∧ ¬Stale m' := by
    intro m op m' h hprompt hs
    rcases (h.1.move hs).stale with ⟨_, hiff⟩ | ⟨hlate, _⟩
    · exact ⟨h.1.step hs, fun hstale => h.2 (hiff.mp hstale)⟩
    · exact absurd hprompt hlate
  have damages : ∀ (m : Thread) op m', (Shape m ∧ ¬Stale m) → ¬m.Prompt op → m.step op = some m' →
      Shape m' ∧ Stale m' := by
    intro m op m' h hlate hs
    rcases (h.1.move hs).stale with ⟨hprompt, _⟩ | ⟨_, hstale⟩
    · exact absurd hprompt hlate
    · exact ⟨h.1.step hs, hstale⟩
  have stays : ∀ (m : Thread) op m', (Shape m ∧ Stale m) → m.step op = some m' → Shape m' ∧ Stale m' := by
    intro m op m' h hs
    rcases (h.1.move hs).stale with ⟨_, hiff⟩ | ⟨_, hstale⟩
    · exact ⟨h.1.step hs, hiff.mpr h.2⟩
    · exact ⟨h.1.step hs, hstale⟩
  have hfresh : ¬Stale fresh := Resting.not_stale ⟨nofun, rfl, fun _ => ⟨nofun, nofun⟩⟩
  rcases Machine.along_or_damaged keep damages stays ⟨shape_fresh, hfresh⟩ run with
    ⟨along, shape, hstale⟩ | ⟨along, shape, hstale⟩
  · refine ⟨⟨fun _ => ?_, fun _ => along⟩, fun h => absurd along h⟩
    cases shape with
    | resting h => exact ⟨h.th, fun t ht => by rw [h.settled t ht]⟩
    | beginning old t h => exact absurd idle h.owner_ne.1
    | begun old t h =>
      refine absurd (h.stale_iff.mpr (Or.inr (settled t ?_))) hstale
      rw [h.threads]
      exact List.mem_append_right _ (List.mem_singleton.mpr rfl)
  · have hth : s.th ≠ none := by
      cases shape with
      | resting h => exact absurd hstale h.not_stale
      | beginning old t h => exact absurd idle h.owner_ne.1
      | begun old t h =>
        rw [h.th]
        exact nofun
    refine ⟨⟨fun h => absurd h along, fun h => absurd h.1 hth⟩, fun _ => ?_⟩
    rw [Thread.step, if_neg (Classical.not_not.mpr idle), if_pos hth]

/-- The second of two threads is over before `start` goes on. -/
theorem restartable_iff_sample :
    ∃ s, Machine.exec step fresh
      [.start, .owner true, .owner true, .owner true, .thread 0, .thread 0, .thread 0, .thread 0,
        .start, .owner true, .thread 1, .thread 1, .thread 1, .owner true, .owner true] = some s ∧
      s.closes = [(0, 0)] ∧ s.th = some 1 ∧ s.step .start = some s := by
  have run : ∃ s, Machine.exec step fresh
      [.start, .owner true, .owner true, .owner true, .thread 0, .thread 0, .thread 0, .thread 0,
        .start, .owner true, .thread 1, .thread 1, .thread 1, .owner true, .owner true] = some s ∧
      s.closes = [(0, 0)] ∧ s.th = some 1 ∧ s.owner = .idle ∧ ∀ t ∈ s.threads, t.pc = .ended :=
    ⟨_, rfl, rfl, rfl, rfl, by decide⟩
  obtain ⟨s, run, hcloses, hth, hidle, hover⟩ := run
  obtain ⟨hiff, hstart⟩ := restartable_iff run hidle hover
  refine ⟨s, run, hcloses, hth, hstart fun along => ?_⟩
  have hnone := (hiff.mp along).1
  rw [hth] at hnone
  cases hnone

end Thread

end Ven
