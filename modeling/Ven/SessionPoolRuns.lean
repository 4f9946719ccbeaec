import Ven.SessionPool
import Ven.Machine
import Ven.Word

namespace Ven

namespace SessionPool

inductive PoolOp
  | pop
  | push (s : Nat)
deriving DecidableEq

/-- Only a session in use is pushed. -/
def step (p : SessionPool) : PoolOp → Option SessionPool
  | .pop => some p.pop.2
  | .push s => if s ∈ p.use then some (p.push s) else none

variable {p q : SessionPool} {preCnt incCnt maxCnt : Nat}

/-- Every session is free or in use, and there are not more than allowed. -/
structure Partition (preCnt incCnt maxCnt : Nat) (p : SessionPool) : Prop where
  hinc : p.incCnt = incCnt
  hmax : p.maxCnt = maxCnt
  parts : (p.free ++ p.use).Perm (List.range p.totalCnt)
  limit : p.totalCnt ≤ max preCnt maxCnt

theorem Partition.nodup (h : Partition preCnt incCnt maxCnt p) : (p.free ++ p.use).Nodup :=
  h.parts.nodup_iff.mpr List.nodup_range

theorem Partition.total (h : Partition preCnt incCnt maxCnt p) : p.totalCnt = p.free.length + p.use.length := by
  have hlen := h.parts.length_eq
  rw [List.length_append, List.length_range] at hlen
  exact hlen.symm

/-- `cnt` more sessions are numbered behind those there are. -/
theorem range'_perm_range (n cnt : Nat) {l : List Nat} (h : l.Perm (List.range n)) :
    ((List.range' n cnt).reverse ++ l).Perm (List.range (n + cnt)) := by
  have hrange : List.range (n + cnt) = List.range n ++ List.range' n cnt := by
    rw [List.range_eq_range', List.range_eq_range', ← List.range'_append_1, Nat.zero_add]
  rw [hrange]
  exact ((List.reverse_perm _).append h).trans List.perm_append_comm

theorem partition_init (preCnt incCnt maxCnt : Nat) : Partition preCnt incCnt maxCnt (init preCnt incCnt maxCnt) := by
  refine ⟨rfl, rfl, ?_, ?_⟩
  · have hperm := range'_perm_range 0 preCnt (l := []) (List.Perm.refl _)
    change ((List.range' 0 preCnt).reverse ++ [] ++ []).Perm (List.range (0 + preCnt))
    rw [List.append_nil]
    exact hperm
  · change 0 + preCnt ≤ max preCnt maxCnt
    rw [Nat.zero_add]
    exact Nat.le_max_left _ _

theorem Partition.pop (h : Partition preCnt incCnt maxCnt p) : Partition preCnt incCnt maxCnt p.pop.2 := by
  rcases p.pop_cases with ⟨s, free, hf, hpop⟩ | ⟨_, _, hpop⟩ | ⟨hf, hlt, _, _, hroom, s, free, hr, hpop⟩
  · rw [hpop]
    refine ⟨h.hinc, h.hmax, ?_, h.limit⟩
    have hparts := h.parts
    rw [hf] at hparts
    exact List.perm_middle.trans hparts
  · rw [hpop]
    exact h
  · rw [hpop]
    refine ⟨h.hinc, h.hmax, ?_, ?_⟩
    · have hparts := h.parts
      rw [hf, List.nil_append] at hparts
      have hall := range'_perm_range p.totalCnt p.createCnt hparts
      rw [hr] at hall
      exact List.perm_middle.trans hall
    · have hmax := h.hmax
      have hle := Nat.le_max_right preCnt maxCnt
      change p.totalCnt + p.createCnt ≤ max preCnt maxCnt
      omega

theorem Partition.push (h : Partition preCnt incCnt maxCnt p) {s : Nat} (hs : s ∈ p.use) : Partition preCnt incCnt maxCnt (p.push s) := by
  refine ⟨h.hinc, h.hmax, ?_, h.limit⟩
  have hmoved : (s :: p.free ++ p.use.erase s).Perm (p.free ++ p.use) := by
    have huse := List.perm_cons_erase hs
    exact List.perm_middle.symm.trans (huse.symm.append_left p.free)
  exact hmoved.trans h.parts

theorem Partition.step {op : PoolOp} (h : Partition preCnt incCnt maxCnt p) (hs : p.step op = some q) : Partition preCnt incCnt maxCnt q := by
  cases op with
  | pop =>
    cases Option.some.inj hs
    exact h.pop
  | push s =>
    simp only [SessionPool.step] at hs
    split at hs
    next hmem =>
      cases Option.some.inj hs
      exact h.push hmem
    next => cases hs

/-- What `pop` gives is not in use. -/
theorem Partition.pop_new (h : Partition preCnt incCnt maxCnt p) {s : Nat} (hs : p.pop.1 = some s) : s ∉ p.use := by
  have hnext := h.pop.nodup
  rcases p.pop_cases with ⟨t, free, _, hpop⟩ | ⟨_, _, hpop⟩ | ⟨_, _, _, _, _, t, free, _, hpop⟩
  · rw [hpop] at hs hnext
    cases Option.some.inj hs
    exact (List.nodup_cons.mp (List.nodup_append.mp hnext).2.1).1
  · rw [hpop] at hs
    cases hs
  · rw [hpop] at hs hnext
    cases Option.some.inj hs
    exact (List.nodup_cons.mp (List.nodup_append.mp hnext).2.1).1

theorem pop_eq_none_iff : p.pop.1 = none ↔ p.free = [] ∧ (p.maxCnt ≤ p.totalCnt ∨ p.incCnt = 0) := by
  rcases p.pop_cases with ⟨s, free, hf, hpop⟩ | ⟨hf, hz, hpop⟩ | ⟨hf, hlt, hpos, hinc, _, s, free, _, hpop⟩
  · rw [hpop, hf]
    simp
  · rw [hpop]
    exact ⟨fun _ => ⟨hf, hz⟩, fun _ => rfl⟩
  · rw [hpop]
    refine ⟨fun h => (by cases h), fun h => ?_⟩
    obtain ⟨_, hz⟩ := h
    omega

/-- Growing within the limit does not wrap `total_cnt_` around. -/
theorem Partition.create_exact (h : Partition preCnt incCnt maxCnt p) (hpre : preCnt < 4294967296) (hmax : maxCnt < 4294967296) :
    add32 p.totalCnt p.createCnt = p.totalCnt + p.createCnt := by
  have hlimit := h.limit
  have hbound : max preCnt maxCnt < 4294967296 := Nat.max_lt.mpr ⟨hpre, hmax⟩
  have hroom : p.createCnt = 0 ∨ p.totalCnt + p.createCnt ≤ maxCnt := by
    have hcnt := h.hmax
    unfold createCnt
    split
    next => exact Or.inl rfl
    next =>
      dsimp only
      split
      next => omega
      next => omega
  exact add32_of_lt (by omega)

/-- The sessions of a pool, whatever is popped and pushed: numbered as they were created, each is free or in use,
and their number stays within the limit. -/
theorem sessions_conserved (preCnt incCnt maxCnt : UInt32) {ops : List PoolOp}
    (run : Machine.exec step (init preCnt.toNat incCnt.toNat maxCnt.toNat) ops = some p) :
    (p.free ++ p.use).Perm (List.range p.totalCnt) ∧ (p.free ++ p.use).Nodup ∧
    p.totalCnt = p.free.length + p.use.length ∧ p.totalCnt ≤ max preCnt.toNat maxCnt.toNat ∧
    add32 p.totalCnt p.createCnt = p.totalCnt + p.createCnt ∧ (∀ s, p.pop.1 = some s → s ∉ p.use) ∧
    (p.pop.1 = none ↔ p.free = [] ∧ (maxCnt.toNat ≤ p.totalCnt ∨ incCnt.toNat = 0)) := by
  have h : Partition preCnt.toNat incCnt.toNat maxCnt.toNat p :=
    Machine.exec_invariant (fun _ _ _ hp hs => hp.step hs) (partition_init _ _ _) run
  refine ⟨h.parts, h.nodup, h.total, h.limit, h.create_exact preCnt.toNat_lt maxCnt.toNat_lt, fun s hs => h.pop_new hs, ?_⟩
  rw [pop_eq_none_iff, h.hmax, h.hinc]

/-- Two sessions at first, three at most. -/
theorem sessions_conserved_sample : ∃ p, Machine.exec step (init 2 5 3) [.pop, .pop, .pop, .push 1, .pop, .pop] = some p ∧
    p.totalCnt = p.free.length + p.use.length ∧ (p.pop.1 = none ↔ p.free = [] ∧ (3 ≤ p.totalCnt ∨ 5 = 0)) := by
  have run : Machine.exec step (init (2 : UInt32).toNat (5 : UInt32).toNat (3 : UInt32).toNat)
      [.pop, .pop, .pop, .push 1, .pop, .pop] = some ⟨5, 3, 3, [], [1, 2, 0]⟩ := by decide
  have h := sessions_conserved 2 5 3 run
  exact ⟨_, run, h.2.2.1, h.2.2.2.2.2.2⟩

end SessionPool

end Ven
