import Mathlib.Logic.Relation
import Mathlib.Data.Fintype.Basic

namespace Locks

universe u v w

/-- A program of one thread over shared data: `act f k` changes the data with `f` and goes on as `k` says for the
data before. -/
inductive Prog (L : Type u) (D : Type v)
  | done
  | lock (l : L) (k : Prog L D)
  | unlock (l : L) (k : Prog L D)
  | act (f : D → D) (k : D → Prog L D)

namespace Prog

variable {L : Type u} {D : Type v}

/-- A step that only reads. -/
def test (k : D → Prog L D) : Prog L D := .act id k

def update (f : D → D) (k : Prog L D) : Prog L D := .act f fun _ => k

/-- A scope that holds `l`; the body goes on with the release wherever it returns. -/
def locked (l : L) (body : Prog L D → Prog L D) (k : Prog L D) : Prog L D := .lock l (body (.unlock l k))

/-- The lock a program takes next. -/
def wants : Prog L D → Option L
  | .lock l _ => some l
  | _ => none

def isDone : Prog L D → Bool
  | .done => true
  | _ => false

/-- The program may still take `l`. -/
def MayLock (l : L) : Prog L D → Prop
  | .done => False
  | .lock l' k => l' = l ∨ MayLock l k
  | .unlock _ k => MayLock l k
  | .act _ k => ∃ d, MayLock l (k d)

/-- The program releases what it takes in the opposite order, `held` included, and takes a lock only when `ok` allows
it beside those held. -/
def Follows (ok : List L → L → Prop) : List L → Prog L D → Prop
  | held, .done => held = []
  | held, .lock l k => ok held l ∧ Follows ok (l :: held) k
  | held, .unlock l k => ∃ rest, held = l :: rest ∧ Follows ok rest k
  | held, .act _ k => ∀ d, Follows ok held (k d)

/-- What the program does when no other thread runs. -/
def run : Prog L D → D → D
  | .done, d => d
  | .lock _ k, d => run k d
  | .unlock _ k, d => run k d
  | .act f k, d => run (k d) (f d)

variable {ok : List L → L → Prop} {held : List L}

@[simp] theorem run_done (d : D) : (done : Prog L D).run d = d := rfl

@[simp] theorem run_lock (l : L) (k : Prog L D) (d : D) : (lock l k).run d = k.run d := rfl

@[simp] theorem run_unlock (l : L) (k : Prog L D) (d : D) : (unlock l k).run d = k.run d := rfl

@[simp] theorem run_act (f : D → D) (k : D → Prog L D) (d : D) : (act f k).run d = (k d).run (f d) := rfl

@[simp] theorem run_test (k : D → Prog L D) (d : D) : (test k).run d = (k d).run d := rfl

@[simp] theorem run_update (f : D → D) (k : Prog L D) (d : D) : (update f k).run d = k.run (f d) := rfl

@[simp] theorem run_locked (l : L) (body : Prog L D → Prog L D) (k : Prog L D) (d : D) :
    (locked l body k).run d = (body (unlock l k)).run d := rfl

theorem mayLock_of_wants {l : L} {p : Prog L D} (h : p.wants = some l) : p.MayLock l := by
  cases p with
  | lock l' k => exact Or.inl (Option.some.inj h)
  | done => cases h
  | unlock l' k => cases h
  | act f k => cases h

theorem Follows.test {k : D → Prog L D} (h : ∀ d, Follows ok held (k d)) : Follows ok held (test k) := h

theorem Follows.act {f : D → D} {k : D → Prog L D} (h : ∀ d, Follows ok held (k d)) : Follows ok held (.act f k) := h

theorem Follows.update {f : D → D} {k : Prog L D} (h : Follows ok held k) : Follows ok held (update f k) := fun _ => h

theorem Follows.locked {l : L} {body : Prog L D → Prog L D} {k : Prog L D} (allowed : ok held l)
    (inside : ∀ k, Follows ok (l :: held) k → Follows ok (l :: held) (body k)) (h : Follows ok held k) :
    Follows ok held (locked l body k) :=
  ⟨allowed, inside _ ⟨held, rfl, h⟩⟩

/-- A section of one action. -/
theorem Follows.atomic {l : L} {f : D → D} {k : D → Prog L D} (allowed : ok held l) (h : ∀ d, Follows ok held (k d)) :
    Follows ok held (.lock l (.act f fun d => .unlock l (k d))) := ⟨allowed, fun d => ⟨held, rfl, h d⟩⟩

end Prog

/-- Threads, the locks each holds (a re-entrant lock as often as it was taken), and the data. -/
structure State (ι : Type w) (L : Type u) (D : Type v) where
  prog : ι → Prog L D
  held : ι → List L
  data : D

namespace State

variable {ι : Type w} {L : Type u} {D : Type v} {s s' : State ι L D}

/-- Thread `t` waits for a lock that `u` holds. -/
def Waits (s : State ι L D) (t u : ι) : Prop := u ≠ t ∧ ∃ l, (s.prog t).wants = some l ∧ l ∈ s.held u

/-- A cycle of threads each of which waits for the next. -/
def Deadlocked (s : State ι L D) : Prop := ∃ t, Relation.TransGen s.Waits t t

def goto [DecidableEq ι] (s : State ι L D) (t : ι) (p : Prog L D) (held : List L) (d : D) : State ι L D where
  prog := Function.update s.prog t p
  held := Function.update s.held t held
  data := d

/-- The next step of thread `t`; a lock that another thread holds is not taken. -/
def step [Fintype ι] [DecidableEq ι] [DecidableEq L] (s : State ι L D) (t : ι) : Option (State ι L D) :=
  match s.prog t with
  | .done => none
  | .lock l k => if ∃ u, u ≠ t ∧ l ∈ s.held u then none else some (s.goto t k (l :: s.held t) s.data)
  | .unlock l k => some (s.goto t k ((s.held t).erase l) s.data)
  | .act f k => some (s.goto t (k s.data) (s.held t) (f s.data))

/-- Every thread follows its rule. -/
def Obeys (ok : ι → List L → L → Prop) (s : State ι L D) : Prop := ∀ t, (s.prog t).Follows (ok t) (s.held t)

variable {ok : ι → List L → L → Prop}

theorem Obeys.wants (h : s.Obeys ok) {t : ι} {l : L} (hw : (s.prog t).wants = some l) : ok t (s.held t) l := by
  have ht := h t
  cases hp : s.prog t with
  | lock l' k =>
    rw [hp] at ht hw
    cases Option.some.inj hw
    exact ht.1
  | done => rw [hp] at hw; cases hw
  | unlock l' k => rw [hp] at hw; cases hw
  | act f k => rw [hp] at hw; cases hw

theorem Obeys.goto [DecidableEq ι] (h : s.Obeys ok) {t : ι} {p : Prog L D} {held : List L} {d : D}
    (follows : p.Follows (ok t) held) : (s.goto t p held d).Obeys ok := by
  intro u
  by_cases hu : u = t
  · subst hu
    simp only [State.goto, Function.update_self]
    exact follows
  · simp only [State.goto, Function.update_of_ne hu]
    exact h u

theorem Obeys.step [Fintype ι] [DecidableEq ι] [DecidableEq L] (h : s.Obeys ok) {t : ι} (hs : s.step t = some s') :
    s'.Obeys ok := by
  have ht := h t
  unfold State.step at hs
  split at hs
  next => cases hs
  next l k hp =>
    split at hs
    next => cases hs
    next =>
      cases Option.some.inj hs
      rw [hp] at ht
      exact h.goto ht.2
  next l k hp =>
    cases Option.some.inj hs
    rw [hp] at ht
    obtain ⟨rest, hheld, hk⟩ := ht
    refine h.goto ?_
    rw [hheld, List.erase_cons_head]
    exact hk
  next f k hp =>
    cases Option.some.inj hs
    rw [hp] at ht
    exact h.goto (ht s.data)

/-- Whoever is on a cycle waits for somebody on a cycle. -/
theorem cycle_next {t : ι} (h : Relation.TransGen s.Waits t t) : ∃ u, s.Waits t u ∧ Relation.TransGen s.Waits u u := by
  obtain ⟨u, hu, rest⟩ := Relation.TransGen.head'_iff.mp h
  exact ⟨u, hu, Relation.TransGen.tail' rest hu⟩

end State

end Locks
