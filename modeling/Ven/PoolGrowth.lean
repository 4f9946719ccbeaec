import Ven.PoolThreadsRuns

namespace Ven

namespace PoolThreads

open MemPC

variable {ι : Type} [DecidableEq ι] [Fintype ι] {initCnt stepCnt : Nat} {ops : List (Op ι)} {s s' : PoolThreads ι}

omit [Fintype ι] [DecidableEq ι] in
theorem alone {t u : ι} {pc q : MemPC} (ht : Local stepCnt s t pc) (hu : Local stepCnt s u q) (hpc : pc.locks = true)
    (hq : q.locks = true) : t = u :=
  Option.some.inj ((ht.lock.mp hpc).symm.trans (hu.lock.mp hq))

/-- No block has 2^32 `Buf`s and destructors about to count down, and there are no 2^32 blocks with those that
`inc_mem` still has to make. -/
structure Countable (stepCnt : Nat) (s : PoolThreads ι) : Prop where
  ref : ∀ k, s.bufs.count k + Threads.total (MemPC.refs k) s.thread < 4294967296
  total : s.laid + Threads.total (owed stepCnt) s.thread < 4294967296

omit [DecidableEq ι] in
/-- Counters that fit are stored as they are. -/
theorem Inv.stored_eq (h : Inv stepCnt s) (countable : Countable stepCnt s) : s.stored = s := by
  have href : (fun k => u32 (s.ref k)) = s.ref := by
    funext k
    exact u32_of_lt (h.refs k ▸ countable.ref k)
  rw [stored, href, u32_of_lt (h.count ▸ countable.total)]

/-- As long as the counters fit, a run is one of a unit with unbounded counters. -/
theorem inv_of_stored (countable : Machine.Throughout (storedStep stepCnt) (Countable stepCnt) (start initCnt) ops)
    (run : Machine.exec (storedStep stepCnt) (start initCnt) ops = some s) : Inv stepCnt s :=
  (Machine.exec_stored (G := fun _ _ => True) (fun _ _ _ h _ => h.step)
    (fun _ h fits => h.stored_eq ⟨fits.ref, fits.total⟩) (inv_start initCnt)
    (Machine.along_of_forall (fun _ _ _ => trivial) _) countable run).2

omit [DecidableEq ι] in
/-- There are no more counts of a block than `Buf`s and threads. -/
theorem countable_of_small (hbufs : s.bufs.length + Fintype.card ι < 4294967296)
    (hlaid : s.laid + Fintype.card ι * stepCnt < 4294967296) : Countable stepCnt s := by
  constructor
  · intro k
    have hrefs : Threads.total (MemPC.refs k) s.thread ≤ Fintype.card ι * 1 := by
      refine Threads.total_le fun t => ?_
      cases s.thread t with
      | releasing m =>
        simp only [MemPC.refs]
        split <;> omega
      | _ => exact Nat.zero_le _
    have hcount : s.bufs.count k ≤ s.bufs.length := List.count_le_length
    omega
  · have howed : Threads.total (owed stepCnt) s.thread ≤ Fintype.card ι * stepCnt := by
      refine Threads.total_le fun t => ?_
      cases s.thread t with
      | making made => exact Nat.sub_le _ _
      | _ => exact Nat.zero_le _
    omega

/-- Whatever the order of the steps of the threads, as long as the counters fit every block made is in one place, the
count of a block is the number of its `Buf`s, `total_` counts the blocks made and those that `inc_mem` is about to make,
one thread at most is inside the lock, and where the pool grows at all no `get` is without a block. -/
theorem unit_conserved (countable : Machine.Throughout (storedStep stepCnt) (Countable stepCnt) (start initCnt) ops)
    (run : Machine.exec (storedStep stepCnt) (start initCnt) ops = some s) :
    (∀ k, s.free.count k + Threads.total (hand k) s.thread + (if 0 < s.ref k then 1 else 0)
      = if k < s.laid then 1 else 0)
    ∧ (∀ k, s.ref k = s.bufs.count k + Threads.total (MemPC.refs k) s.thread)
    ∧ s.total = s.laid + Threads.total (owed stepCnt) s.thread
    ∧ (∀ t u, (s.thread t).locks = true → (s.thread u).locks = true → t = u)
    ∧ (1 ≤ stepCnt → ∀ t, s.thread t ≠ .boxing none) := by
  have h := inv_of_stored countable run
  refine ⟨fun k => ?_, h.refs, h.count, fun t u => alone (h.places t) (h.places u), fun hs t hbox => ?_⟩
  · have hparts := h.parts k
    have hmin : min 1 (s.ref k) = if 0 < s.ref k then 1 else 0 := by split <;> omega
    rw [hmin] at hparts
    exact hparts
  · have hknows := (h.places t).knows
    rw [hbox] at hknows
    have hzero : stepCnt = 0 := hknows
    omega

/-- Two threads find a unit empty, and the second waits for the lock in which the first makes two blocks. -/
theorem unit_conserved_sample :
    ∃ s, Machine.exec (storedStep 2) (start (ι := Fin 2) 0) [.get 0, .get 1, .step 0, .step 1, .step 0, .step 0, .step 0,
        .step 0, .step 0, .step 0, .step 0, .step 0, .step 0, .step 1, .step 1, .step 1, .step 1] = some s ∧
      s.free = [] ∧ s.bufs = [0, 1] ∧ s.total = s.laid + Threads.total (owed 2) s.thread := by
  have run : ∃ s, Machine.exec (storedStep 2) (start (ι := Fin 2) 0) [.get 0, .get 1, .step 0, .step 1, .step 0, .step 0,
      .step 0, .step 0, .step 0, .step 0, .step 0, .step 0, .step 0, .step 1, .step 1, .step 1, .step 1] = some s ∧
      s.free = [] ∧ s.bufs = [0, 1] ∧ (s.bufs.length + Fintype.card (Fin 2) < 4294967296 ∧
        s.laid + Fintype.card (Fin 2) * 2 < 4294967296) := ⟨_, rfl, rfl, rfl, by decide, by decide⟩
  obtain ⟨s, run, hfree, hbufs, hend⟩ := run
  have small : Machine.Throughout (storedStep 2) (fun t => t.bufs.length + Fintype.card (Fin 2) < 4294967296 ∧
      t.laid + Fintype.card (Fin 2) * 2 < 4294967296) (start (ι := Fin 2) 0) [.get 0, .get 1, .step 0, .step 1, .step 0,
      .step 0, .step 0, .step 0, .step 0, .step 0, .step 0, .step 0, .step 0, .step 1, .step 1, .step 1, .step 1] :=
    Machine.throughout_of_along (by decide) run hend
  have h := unit_conserved (fun before t hpre hrun =>
    countable_of_small (small before t hpre hrun).1 (small before t hpre hrun).2) run
  exact ⟨s, run, hfree, hbufs, h.2.2.1⟩

omit [DecidableEq ι] [Fintype ι] in
theorem used_eq_sum (s : PoolThreads ι) : s.used = ∑ k ∈ Finset.range s.laid, min 1 (s.ref k) := by
  rw [used, Finset.card_filter]
  refine Finset.sum_congr rfl fun k _ => ?_
  split <;> omega

theorem sum_hand_le {pc : MemPC} (hpc : pc.locks = false) (n : Nat) : ∑ k ∈ Finset.range n, hand k pc ≤ 1 := by
  have single (m : Nat) : ∑ k ∈ Finset.range n, (if m = k then 1 else 0) ≤ 1 := by
    rw [Finset.sum_ite_eq]
    split <;> omega
  cases pc with
  | wrapping m => exact single m
  | returning m => exact single m
  | making => cases hpc
  | boxing => cases hpc
  | _ => simp [hand]

/-- When `inc_mem` is about to grow the unit, the blocks that no `Buf` has are in the hands of the other threads, one
each at most. -/
theorem Inv.laid_le (h : Inv stepCnt s) {t : ι} (hpc : s.thread t = .counting) :
    s.laid ≤ s.used + (Fintype.card ι - 1) := by
  have hplace := h.places t
  rw [hpc] at hplace
  have hfree : s.free = [] := hplace.knows
  have hlaid : s.laid = ∑ k ∈ Finset.range s.laid, (Threads.total (hand k) s.thread + min 1 (s.ref k)) := by
    rw [← Finset.sum_congr rfl fun k hk => ?_, Finset.sum_const, Finset.card_range, smul_eq_mul, Nat.mul_one]
    have hparts := h.parts k
    rw [hfree, List.count_nil, if_pos (Finset.mem_range.mp hk)] at hparts
    omega
  have hcarried : ∑ k ∈ Finset.range s.laid, Threads.total (hand k) s.thread ≤ Fintype.card ι - 1 := by
    unfold Threads.total
    rw [Finset.sum_comm, ← Finset.card_univ, ← Finset.card_erase_of_mem (Finset.mem_univ t), Finset.card_eq_sum_ones,
      ← Finset.add_sum_erase _ _ (Finset.mem_univ t)]
    have hnone : ∑ k ∈ Finset.range s.laid, hand k (s.thread t) = 0 := by
      rw [hpc]
      exact Finset.sum_eq_zero fun _ _ => rfl
    rw [hnone, Nat.zero_add]
    refine Finset.sum_le_sum fun u hu => ?_
    refine sum_hand_le (Bool.eq_false_iff.mpr fun hl => Finset.ne_of_mem_erase hu ?_) s.laid
    exact alone (h.places u) hplace hl rfl
  rw [Finset.sum_add_distrib, ← used_eq_sum] at hlaid
  omega

omit [DecidableEq ι] in
/-- Nobody is in the second part of `inc_mem` while a thread is before the first. -/
theorem Inv.total_laid (h : Inv stepCnt s) {t : ι} (hpc : s.thread t = .counting) : s.total = s.laid := by
  have hplace := h.places t
  rw [hpc] at hplace
  have hnone : Threads.total (owed stepCnt) s.thread = 0 := by
    refine Threads.total_eq_zero fun u => ?_
    cases hu : s.thread u with
    | making made =>
      have hut : u = t := by
        refine alone (h.places u) hplace ?_ rfl
        rw [hu]
        rfl
      rw [hut, hpc] at hu
      cases hu
    | _ => rfl
  rw [h.count, hnone, Nat.add_zero]

omit [Fintype ι] in
theorem total_step {op : Op ι} (hs : s.step stepCnt op = some s') :
    s'.total = s.total ∨ (∃ t, s.thread t = .counting) ∧ s'.total = s.total + stepCnt := by
  cases op with
  | get t =>
    obtain ⟨_, hs⟩ := Option.ite_none_right_eq_some.mp hs
    cases hs
    exact Or.inl rfl
  | copy t m =>
    obtain ⟨_, hs⟩ := Option.ite_none_right_eq_some.mp hs
    cases hs
    exact Or.inl rfl
  | drop t m =>
    obtain ⟨_, hs⟩ := Option.ite_none_right_eq_some.mp hs
    cases hs
    exact Or.inl rfl
  | step t =>
    obtain ⟨w, pc, turn, rfl⟩ := turn_of_stepThread hs
    cases hpc : s.thread t with
    | counting =>
      rw [hpc] at turn
      cases turn with
      | dry _ _ goes => rcases goes with ⟨h, _⟩ | ⟨h, _⟩ | ⟨h, _⟩ <;> cases h
      | pop _ _ _ _ goes => rcases goes with ⟨h, _⟩ | ⟨h | h, _⟩ <;> cases h
      | count => exact Or.inr ⟨⟨t, hpc⟩, rfl⟩
      | add _ goes => rcases goes with ⟨h, _⟩ | ⟨h, _⟩ <;> cases h
    | _ =>
      rw [hpc] at turn
      cases turn <;> exact Or.inl rfl

/-- A unit grows only when all its blocks are away: it never has more than the most that were used at one time, one in
the hands of every other thread, and one step more. -/
theorem growth_bounded {most : Nat} (run : Machine.exec (step stepCnt) (start initCnt) ops = some s)
    (h : Machine.Along (step stepCnt) (fun s _ => s.used ≤ most) (start initCnt) ops) :
    s.total ≤ max initCnt (most + (Fintype.card ι - 1) + stepCnt) := by
  have hbound := Machine.exec_invariant_along
    (I := fun s => Inv stepCnt s ∧ s.total ≤ max initCnt (most + (Fintype.card ι - 1) + stepCnt))
    (fun s op s' hs hused step => ?_) ⟨inv_start initCnt, Nat.le_max_left _ _⟩ h run
  · exact hbound.2
  · refine ⟨hs.1.step step, ?_⟩
    rcases total_step step with htotal | ⟨⟨t, hpc⟩, htotal⟩
    · rw [htotal]
      exact hs.2
    · have hlaid := hs.1.laid_le hpc
      have htl := hs.1.total_laid hpc
      omega

theorem growth_bounded_sample :
    ∃ s, Machine.exec (step 2) (start (ι := Fin 2) 1) [.get 0, .step 0, .step 0, .get 0, .get 1, .step 0, .step 1,
        .step 0, .step 0, .step 0] = some s ∧ s.total = 3 ∧ s.total ≤ max 1 (1 + (2 - 1) + 2) := by
  have run : ∃ s, Machine.exec (step 2) (start (ι := Fin 2) 1) [.get 0, .step 0, .step 0, .get 0, .get 1, .step 0,
      .step 1, .step 0, .step 0, .step 0] = some s ∧ s.total = 3 := ⟨_, rfl, rfl⟩
  obtain ⟨s, run, htotal⟩ := run
  exact ⟨s, run, htotal, growth_bounded run (by decide)⟩

omit [Fintype ι] in
/-- A thread in a call goes on whenever the lock of the list lets it in. -/
theorem stepThread_isSome {t : ι} (hpc : s.thread t ≠ .idle) (enter : s.enters t = true) :
    (s.stepThread stepCnt t).isSome := by
  unfold stepThread
  split
  next hidle => exact absurd hidle hpc
  all_goals simp [enter]
  split <;> rfl

/-- A thread in the lock can go on, and when nobody is in it every thread can. -/
theorem Inv.someone_goes (h : Inv stepCnt s) {t : ι} (hpc : s.thread t ≠ .idle) :
    ∃ u, (s.stepThread stepCnt u).isSome := by
  cases ho : s.owner with
  | none => exact ⟨t, stepThread_isSome hpc (decide_eq_true (Or.inl ho))⟩
  | some u =>
    have hlock := (h.places u).lock.mpr ho
    refine ⟨u, stepThread_isSome (fun hidle => ?_) (decide_eq_true (Or.inr ho))⟩
    rw [hidle] at hlock
    cases hlock

theorem left_step {t : ι} (hs : s.stepThread stepCnt t = some s') :
    Threads.total (left stepCnt) s'.thread + 1 ≤ Threads.total (left stepCnt) s.thread := by
  obtain ⟨w, pc, turn, rfl⟩ := turn_of_stepThread hs
  have hlt := turn.left_lt
  have hmoved := Threads.total_update (left stepCnt) s.thread t pc
  have hthread : (w.goto t pc).thread = Function.update s.thread t pc := by
    rw [goto, turn.thread]
  rw [hthread]
  omega

/-- Threads that only go on with their calls come to an end of them. -/
theorem left_run {turns : List ι} (run : Machine.exec (step stepCnt) s (turns.map .step) = some s') :
    turns.length + Threads.total (left stepCnt) s'.thread ≤ Threads.total (left stepCnt) s.thread := by
  induction turns generalizing s with
  | nil =>
    cases Option.some.inj run
    rw [List.length_nil, Nat.zero_add]
  | cons t turns ih =>
    obtain ⟨mid, hm, run⟩ := Option.bind_eq_some_iff.mp run
    have hmid := left_step hm
    have hrest := ih run
    rw [List.length_cons]
    omega

omit [DecidableEq ι] in
theorem total_left_le (thread : ι → MemPC) : Threads.total (left stepCnt) thread ≤ Fintype.card ι * (stepCnt + 9) := by
  refine Threads.total_le fun t => ?_
  cases thread t <;> simp only [left] <;> omega

/-- From every state reached, however the threads are scheduled, their calls of `get` and their destructors take a
bounded number of steps in all, and until the last of them has returned one of them can go on. -/
theorem calls_return (run : Machine.exec (step stepCnt) (start initCnt) ops = some s) {turns : List ι}
    (more : Machine.exec (step stepCnt) s (turns.map .step) = some s') :
    turns.length ≤ Fintype.card ι * (stepCnt + 9)
    ∧ ((∀ t, s'.thread t = .idle) ∨ ∃ t, (s'.step stepCnt (.step t)).isSome) := by
  have hleft := left_run more
  have hmost : Threads.total (left stepCnt) s.thread ≤ _ := total_left_le s.thread
  refine ⟨by omega, ?_⟩
  by_cases hall : ∀ t, s'.thread t = .idle
  · exact Or.inl hall
  · obtain ⟨t, ht⟩ := not_forall.mp hall
    have hend : Inv stepCnt s' := Machine.exec_invariant (fun _ _ _ h => h.step) (inv_of_run run) more
    obtain ⟨u, hu⟩ := hend.someone_goes ht
    exact Or.inr ⟨u, hu⟩

theorem calls_return_sample :
    ∃ s s', Machine.exec (step 2) (start (ι := Fin 2) 1) [.get 0, .get 1, .step 0, .step 1] = some s ∧
      Machine.exec (step 2) s ([1, 1, 0].map .step) = some s' ∧
      ((∀ t, s'.thread t = .idle) ∨ ∃ t, (s'.step 2 (.step t)).isSome) := by
  obtain ⟨s, run⟩ : ∃ s, Machine.exec (step 2) (start (ι := Fin 2) 1) [.get 0, .get 1, .step 0, .step 1] = some s :=
    ⟨_, rfl⟩
  have more : ∃ s', Machine.exec (step 2) s ([1, 1, 0].map .step) = some s' := by
    cases Option.some.inj run
    exact ⟨_, rfl⟩
  obtain ⟨s', more⟩ := more
  exact ⟨s, s', run, more, (calls_return run more).2⟩

end PoolThreads

end Ven
