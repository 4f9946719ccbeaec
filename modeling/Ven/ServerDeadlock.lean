import Ven.ServerLocks

namespace Ven

open Locks

variable {α : Type} {n : Nat}

namespace Serving

variable {s s' : Serving α n}

/-- The rule of each thread: only `uninit` takes locks while it holds `lock_`. -/
def rule (t : Option (Fin n)) : List SessionLock → SessionLock → Prop := allowed t.isNone

/-- No thread that holds the `cd_lock_` of a session waits for that of another whose holder waits itself, and none
stands before `lock_` with the `cd_lock_` of a session that `uninit` still has to take while it holds `lock_`. -/
structure Apart (s : Serving α n) : Prop where
  sessions : ∀ t u i j, SessionLock.cd i ∈ s.held t → (s.prog t).wants = some (.cd j) → u ≠ t → SessionLock.cd j ∈ s.held u →
    ∀ x, ¬s.Waits u x
  pool : ∀ t i, SessionLock.cd i ∈ s.held (some t) → (s.prog (some t)).wants = some .pool → SessionLock.pool ∈ s.held none →
    ¬(s.prog none).MayLock (.cd i)

/-- The step leads to no such meeting of two threads. -/
def Clear (s : Serving α n) (op : ServingOp α n) : Prop := ∀ s', s.step op = some s' → s'.Apart

theorem obeys_start (v : Server α) : (start v : Serving α n).Obeys rule := fun _ => rfl

theorem apart_start (v : Server α) : (start v : Serving α n).Apart := ⟨nofun, nofun⟩

theorem obeys_begin (h : s.Obeys rule) {t : Option (Fin n)} {p : ServerProg α} {v : Server α}
    (follows : p.Follows (rule t) []) (hs : s.begin t p v = some s') : s'.Obeys rule := by
  unfold begin at hs
  split at hs
  next hdone =>
    cases Option.some.inj hs
    have hheld : s.held t = [] := by
      have ht := h t
      cases hp : s.prog t with
      | done =>
        rw [hp] at ht
        exact ht
      | lock l k => rw [hp] at hdone; cases hdone
      | unlock l k => rw [hp] at hdone; cases hdone
      | act f k => rw [hp] at hdone; cases hdone
    rw [hheld]
    exact h.goto follows
  next => cases hs

theorem obeys_step (h : s.Obeys rule) {op : ServingOp α n} (hs : s.step op = some s') : s'.Obeys rule := by
  unfold step at hs
  split at hs
  next => cases hs
  next =>
    cases op with
    | run t => exact State.Obeys.step h hs
    | listen t accepts =>
      have hempty : Clean false [] := ⟨fun _ hin => absurd hin List.not_mem_nil, fun hin => absurd hin List.not_mem_nil⟩
      have hdone : (Prog.done : ServerProg α).Follows (allowed false) [] := rfl
      exact obeys_begin (t := some t) h (follows_acceptAll hempty accepts hdone) hs
    | event t e =>
      obtain ⟨v, _, hs⟩ := Option.bind_eq_some_iff.mp hs
      exact obeys_begin h (follows_handler e) hs
    | stopAcceptor => exact obeys_begin (t := none) (p := .done) h rfl hs
    | uninit order onDisc accepts polls => exact obeys_begin (t := none) h (follows_uninit order onDisc accepts polls) hs

/-- Whoever waits for a lock of a thread that waits itself goes for `lock_` of the pool or for a `cd_lock_`, and in the
first case it is `uninit` that holds it. -/
theorem waits_cases (h : s.Obeys rule) {t u x : Option (Fin n)} (htu : s.Waits t u) (hux : s.Waits u x) :
    ((s.prog t).wants = some .pool ∧ SessionLock.pool ∈ s.held u ∧ u = none) ∨
      ∃ i, (s.prog t).wants = some (.cd i) ∧ SessionLock.cd i ∈ s.held u := by
  obtain ⟨_, l, hl, hheld⟩ := htu
  obtain ⟨_, l', hl', _⟩ := hux
  have hclean : Clean u.isNone (s.held u) := h.wants hl'
  cases l with
  | cd i => exact Or.inr ⟨i, hl, hheld⟩
  | s i => exact absurd hheld (hclean.1 i)
  | pool => exact Or.inl ⟨hl, hheld, Option.isNone_iff_eq_none.mp (hclean.2 hheld)⟩

/-- On a cycle somebody waits for `uninit`. -/
theorem uninit_on_cycle (h : s.Obeys rule) (apart : s.Apart) {t : Option (Fin n)}
    (cycle : Relation.TransGen s.Waits t t) : Relation.TransGen s.Waits none none := by
  obtain ⟨u, htu, hu⟩ := State.cycle_next cycle
  obtain ⟨x, hux, hx⟩ := State.cycle_next hu
  rcases waits_cases h htu hux with ⟨_, _, hnone⟩ | ⟨i, _, hi⟩
  · rw [hnone] at hu
    exact hu
  · obtain ⟨y, hxy, _⟩ := State.cycle_next hx
    rcases waits_cases h hux hxy with ⟨_, _, hnone⟩ | ⟨j, hj, hheld⟩
    · rw [hnone] at hx
      exact hx
    · exact absurd hxy (apart.sessions u x i j hi hj hux.1 hheld y)

theorem apart_not_deadlocked (h : s.Obeys rule) (apart : s.Apart) : ¬s.Deadlocked := by
  rintro ⟨t, cycle⟩
  obtain ⟨u, hnu, hu⟩ := State.cycle_next (uninit_on_cycle h apart cycle)
  obtain ⟨x, hux, hx⟩ := State.cycle_next hu
  rcases waits_cases h hnu hux with ⟨_, _, hnone⟩ | ⟨i, hi, hheld⟩
  · exact hnu.1 hnone
  · obtain ⟨y, hxy, _⟩ := State.cycle_next hx
    rcases waits_cases h hux hxy with ⟨hpool, hown, hnone⟩ | ⟨j, hj, hheldj⟩
    · obtain ⟨v, rfl⟩ := Option.ne_none_iff_exists'.mp hnu.1
      rw [hnone] at hown
      exact apart.pool v i hheld hpool hown (Prog.mayLock_of_wants hi)
    · exact apart.sessions u x i j hheld hj hux.1 hheldj y hxy

/-- In a run that keeps `uninit` and the teardowns apart no threads wait for each other in a cycle. -/
theorem no_deadlock {v : Server α} {ops : List (ServingOp α n)} (clear : Machine.Along step Clear (start v) ops)
    (run : Machine.exec step (start v) ops = some s) : ¬s.Deadlocked := by
  have inv : s.Obeys rule ∧ s.Apart := by
    refine Machine.exec_invariant_along (I := fun s : Serving α n => s.Obeys rule ∧ s.Apart) (G := Clear) ?_
      ⟨obeys_start v, apart_start v⟩ clear run
    intro s op s' h good hs
    exact ⟨obeys_step h.1 hs, good s' hs⟩
  exact apart_not_deadlocked inv.1 inv.2

/-- No thread that holds a lock of a session waits for one. -/
def Flows (s : Serving α n) : Prop :=
  ∀ t u, ∀ l ∈ s.held t, l ≠ .pool → u ≠ t → ∀ l' ∈ s.held u, (s.prog t).wants ≠ some l'

instance (s : Serving α n) : Decidable s.Flows :=
  inferInstanceAs (Decidable (∀ t u, ∀ l ∈ s.held t, l ≠ .pool → u ≠ t → ∀ l' ∈ s.held u, (s.prog t).wants ≠ some l'))

theorem Flows.apart (h : s.Flows) : s.Apart := by
  constructor
  · intro t u i j hheld hw hne hin
    exact absurd hw (h t u _ hheld nofun hne _ hin)
  · intro t i hheld hw hin
    exact absurd hw (h (some t) none _ hheld nofun nofun _ hin)

/-- The step makes no thread wait that holds a lock of a session. -/
def Smooth (s : Serving α n) (op : ServingOp α n) : Prop :=
  match s.step op with
  | none => True
  | some s' => s'.Flows

instance (s : Serving α n) (op : ServingOp α n) : Decidable (s.Smooth op) := by
  unfold Smooth
  split
  next => exact isTrue trivial
  next s' _ => exact inferInstanceAs (Decidable s'.Flows)

theorem Smooth.clear {op : ServingOp α n} (h : s.Smooth op) : s.Clear op := by
  intro s' hs
  unfold Smooth at h
  rw [hs] at h
  exact h.apart

def inOrder : SetOrder := ⟨fun l => l, fun l => List.Perm.refl l⟩

/-- A server with one slot and one session takes a connection. -/
def connected : List (ServingOp Nat 1) :=
  .listen 0 [true] :: List.replicate 9 (.run (some 0)) ++
    .event 0 (.accept 0 0 0 true ⟨[], none, true, [], []⟩ [] true) :: List.replicate 13 (.run (some 0))

/-- It is stopped while the session is in `_disconnect`: `uninit` waits for its `cd_lock_` and holds `lock_`. -/
def stopped : List (ServingOp Nat 1) :=
  connected ++ .event 0 (.recv 0 1 0 0 [] false none true [] []) :: List.replicate 7 (.run (some 0)) ++
    [.stopAcceptor, .uninit inOrder (fun _ => []) [] 1, .run none, .run none]

theorem no_deadlock_sample :
    ∃ s, Machine.exec step (start (Server.init 1 1 1 1 1 1 1)) stopped = some s ∧ s.Waits none (some 0) ∧
      SessionLock.pool ∈ s.held none ∧ ¬s.Deadlocked := by
  have run : (Machine.exec step (start (Server.init 1 1 1 1 1 1 1)) stopped).map
      (fun s => ((s.prog none).wants, s.held none, s.held (some 0))) =
        some (some (.cd 0), [.pool], [.cd 0]) := by decide +kernel
  obtain ⟨s, run, hs⟩ := Option.map_eq_some_iff.mp run
  simp only [Prod.mk.injEq] at hs
  obtain ⟨hstop, hpool, hcd⟩ := hs
  have smooth : Machine.Along step Smooth (start (Server.init 1 1 1 1 1 1 1)) stopped := by decide +kernel
  have clear : Machine.Along step Clear (start (Server.init 1 1 1 1 1 1 1)) stopped :=
    Machine.along_of_along (I := fun _ => True) (fun _ _ _ h => ⟨h.clear, fun _ _ => trivial⟩) trivial smooth
  refine ⟨s, run, ⟨nofun, .cd 0, hstop, ?_⟩, ?_, no_deadlock clear run⟩
  · rw [hcd]
    exact List.mem_singleton_self _
  · rw [hpool]
    exact List.mem_singleton_self _

/-- `DisconnectEx` completes, and `_on_disc` is about to give the session back when the server is stopped. -/
def meeting : List (ServingOp Nat 1) :=
  connected ++ .event 0 (.recv 0 1 0 0 [] false none true [] []) :: List.replicate 10 (.run (some 0)) ++
    .event 0 (.disc 0 [] []) :: List.replicate 4 (.run (some 0)) ++
    [.stopAcceptor, .uninit inOrder (fun _ => []) [] 1, .run none, .run none]

theorem stop_deadlocks :
    ∃ s, Machine.exec step (start (Server.init 1 1 1 1 1 1 1)) meeting = some s ∧ s.Deadlocked := by
  have run : (Machine.exec step (start (Server.init 1 1 1 1 1 1 1)) meeting).map
      (fun s => ((s.prog none).wants, s.held none, (s.prog (some 0)).wants, s.held (some 0))) =
        some (some (.cd 0), [.pool], some .pool, [.cd 0]) := by decide +kernel
  obtain ⟨s, run, hs⟩ := Option.map_eq_some_iff.mp run
  simp only [Prod.mk.injEq] at hs
  obtain ⟨hstop, hpool, hteardown, hcd⟩ := hs
  have there : s.Waits none (some 0) := ⟨nofun, .cd 0, hstop, by rw [hcd]; exact List.mem_singleton_self _⟩
  have back : s.Waits (some 0) none := ⟨nofun, .pool, hteardown, by rw [hpool]; exact List.mem_singleton_self _⟩
  exact ⟨s, run, none, Relation.TransGen.tail (Relation.TransGen.single there) back⟩

end Serving

end Ven
