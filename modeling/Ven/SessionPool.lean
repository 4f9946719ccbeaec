import Mathlib.Data.List.Range
import Mathlib.Data.List.Perm.Basic

namespace Ven

/-- Sessions are numbered in the order in which they are created; `use` is `use_`. -/
structure SessionPool where
  incCnt : Nat
  maxCnt : Nat
  totalCnt : Nat
  free : List Nat
  use : List Nat
deriving DecidableEq

namespace SessionPool

variable {p : SessionPool}

def create (p : SessionPool) (cnt : Nat) : SessionPool :=
  { p with totalCnt := p.totalCnt + cnt, free := (List.range' p.totalCnt cnt).reverse ++ p.free }

def init (preCnt incCnt maxCnt : Nat) : SessionPool := create ⟨incCnt, maxCnt, 0, [], []⟩ preCnt

def createCnt (p : SessionPool) : Nat :=
  if p.totalCnt ≥ p.maxCnt then 0
  else
    let diff := p.maxCnt - p.totalCnt
    if diff ≥ p.incCnt then p.incCnt else diff

/-- `free_.pop()` and `use_.insert`. -/
def take (p : SessionPool) : Option Nat × SessionPool :=
  match p.free with
  | [] => (none, p)
  | s :: free => (some s, { p with free := free, use := s :: p.use })

def pop (p : SessionPool) : Option Nat × SessionPool :=
  if p.free = [] then
    if p.createCnt = 0 then (none, p) else (p.create p.createCnt).take
  else p.take

def push (p : SessionPool) (s : Nat) : SessionPool :=
  { p with use := p.use.erase s, free := s :: p.free }

/-- How many sessions `pop` gives before it returns null. -/
def supply (p : SessionPool) : Nat := p.free.length + if p.incCnt = 0 then 0 else p.maxCnt - p.totalCnt

theorem createCnt_eq_zero : p.createCnt = 0 ↔ p.maxCnt ≤ p.totalCnt ∨ p.incCnt = 0 := by
  unfold createCnt
  split
  next h => exact ⟨fun _ => Or.inl h, fun _ => rfl⟩
  next h =>
    dsimp only
    split
    next => exact ⟨Or.inr, fun hz => hz.resolve_left (by omega)⟩
    next => omega

theorem pop_cases (p : SessionPool) :
    (∃ s free, p.free = s :: free ∧ p.pop = (some s, { p with free := free, use := s :: p.use })) ∨
    (p.free = [] ∧ (p.maxCnt ≤ p.totalCnt ∨ p.incCnt = 0) ∧ p.pop = (none, p)) ∨
    (p.free = [] ∧ p.totalCnt < p.maxCnt ∧ 0 < p.createCnt ∧ p.createCnt ≤ p.incCnt ∧
      p.createCnt ≤ p.maxCnt - p.totalCnt ∧ ∃ s free, (List.range' p.totalCnt p.createCnt).reverse = s :: free ∧
        p.pop = (some s, { p with totalCnt := p.totalCnt + p.createCnt, free := free, use := s :: p.use })) := by
  cases hf : p.free with
  | cons s free =>
    refine Or.inl ⟨s, free, rfl, ?_⟩
    simp [pop, take, hf]
  | nil =>
    refine Or.inr ?_
    by_cases hz : p.createCnt = 0
    · refine Or.inl ⟨rfl, createCnt_eq_zero.mp hz, ?_⟩
      simp [pop, hf, hz]
    · have hlt : ¬(p.maxCnt ≤ p.totalCnt ∨ p.incCnt = 0) := fun h => hz (createCnt_eq_zero.mpr h)
      have hle : p.createCnt ≤ p.incCnt ∧ p.createCnt ≤ p.maxCnt - p.totalCnt := by
        unfold createCnt
        split
        next => omega
        next =>
          dsimp only
          split
          next => omega
          next => omega
      refine Or.inr ⟨rfl, by omega, by omega, hle.1, hle.2, ?_⟩
      cases hr : (List.range' p.totalCnt p.createCnt).reverse with
      | nil =>
        have hlen := congrArg List.length hr
        simp only [List.length_reverse, List.length_range', List.length_nil] at hlen
        omega
      | cons s free =>
        refine ⟨s, free, rfl, ?_⟩
        simp [pop, create, take, hf, hz, hr]

theorem supply_push (p : SessionPool) (s : Nat) : (p.push s).supply = p.supply + 1 := by
  unfold supply push
  dsimp only
  rw [List.length_cons]
  omega

theorem pop_eq_none : p.pop.1 = none ↔ p.supply = 0 := by
  unfold supply
  rcases p.pop_cases with ⟨s, free, hf, hpop⟩ | ⟨hf, hz, hpop⟩ | ⟨hf, hlt, hpos, hinc, _, s, free, _, hpop⟩
  · rw [hpop, hf]
    simp
  · rw [hpop, hf]
    have : (if p.incCnt = 0 then 0 else p.maxCnt - p.totalCnt) = 0 := by
      split
      next => rfl
      next => omega
    simp [this]
  · rw [hpop, hf, if_neg (by omega)]
    simp only [List.length_nil, Nat.zero_add, reduceCtorEq, false_iff]
    omega

theorem supply_pop {s : Nat} {q : SessionPool} (h : p.pop = (some s, q)) : q.supply + 1 = p.supply := by
  unfold supply
  rcases p.pop_cases with ⟨t, free, hf, hpop⟩ | ⟨_, _, hpop⟩ | ⟨hf, hlt, hpos, hinc, hmax, t, free, hr, hpop⟩
  · cases h.symm.trans hpop
    rw [hf, List.length_cons]
    dsimp only
    omega
  · cases h.symm.trans hpop
  · cases h.symm.trans hpop
    have hlen := congrArg List.length hr
    simp only [List.length_reverse, List.length_range', List.length_cons] at hlen
    have hne : p.incCnt ≠ 0 := by omega
    simp only [hf, hne, if_false, List.length_nil]
    omega

theorem pop_none {q : SessionPool} (h : p.pop = (none, q)) : q = p := by
  rcases p.pop_cases with ⟨t, free, _, hpop⟩ | ⟨_, _, hpop⟩ | ⟨_, _, _, _, _, t, free, _, hpop⟩
  · cases h.symm.trans hpop
  · cases h.symm.trans hpop
    rfl
  · cases h.symm.trans hpop

end SessionPool

end Ven
