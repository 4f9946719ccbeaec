import Ven.SendWakeups

namespace Ven

variable {α : Type}

/-- The pool has at most been added to, and its arrays have the size they were created with. -/
structure SOVPool.Grows (p q : SOVPool α) : Prop where
  arrCnt : q.arrCnt = p.arrCnt
  totalCnt : p.totalCnt ≤ q.totalCnt

namespace SOVPool

variable {p q r : SOVPool α}

theorem Grows.refl (p : SOVPool α) : p.Grows p := ⟨rfl, Nat.le_refl _⟩

theorem Grows.trans (h : p.Grows q) (h' : q.Grows r) : p.Grows r :=
  ⟨h'.arrCnt.trans h.arrCnt, h.totalCnt.trans h'.totalCnt⟩

theorem create_grows (p : SOVPool α) (cnt : Nat) : p.Grows (p.create cnt) := by
  induction cnt generalizing p with
  | zero => exact .refl p
  | succ cnt ih =>
    have hone : p.Grows p.createOne := ⟨rfl, Nat.le_succ _⟩
    exact hone.trans (ih p.createOne)

theorem popFree_grows (p : SOVPool α) : p.Grows p.popFree.2 := by
  unfold popFree
  split
  next => exact .refl p
  next => exact ⟨rfl, Nat.le_refl _⟩

theorem pop_grows (p : SOVPool α) : p.Grows p.pop.2 := by
  have hfree := popFree_grows p
  unfold pop
  split
  next heq =>
    rw [heq] at hfree
    exact hfree
  next heq =>
    rw [heq] at hfree
    exact (hfree.trans (create_grows _ _)).trans (popFree_grows _)

end SOVPool

namespace SBuf

variable {b b' : SBuf} {p q : SOVPool α}

theorem alloc_grows {id : Nat} (h : b.alloc p = some (id, q)) : p.Grows q := by
  have hpop := SOVPool.pop_grows p
  unfold alloc at h
  split at h
  next =>
    split at h
    next => cases h
    next heq =>
      rw [heq] at hpop
      cases Option.some.inj h
      exact ⟨hpop.arrCnt, hpop.totalCnt⟩
  next => cases h

theorem push_grows {buf : Option α} (h : b.push p buf = some q) : p.Grows q := by
  cases buf with
  | none =>
    cases Option.some.inj h
    exact .refl p
  | some x =>
    unfold push at h
    dsimp only at h
    split at h
    next => cases h
    next =>
      obtain ⟨slist, _, rfl⟩ := Option.map_eq_some_iff.mp h
      exact ⟨rfl, Nat.le_refl _⟩

theorem pop_grows {sov : Option Nat} (h : b.pop p = some (sov, b', q)) : p.Grows q := by
  unfold pop at h
  split at h
  next => cases h
  next =>
    split at h
    next =>
      cases Option.some.inj h
      exact .refl p
    next =>
      split at h
      next =>
        obtain ⟨⟨new, r⟩, halloc, hget⟩ := Option.map_eq_some_iff.mp h
        cases hget
        exact alloc_grows halloc
      next =>
        cases Option.some.inj h
        exact .refl p

end SBuf

namespace Sender

variable {s s' : Sender α}

theorem lock_grows (s : Sender α) (t : Nat) (buf : Option α) : s.pool.Grows (s.lock t buf).pool := by
  unfold lock
  split
  next => exact .refl _
  next pool hpush =>
    split
    next => exact .refl _
    next hpop => exact (SBuf.push_grows hpush).trans (SBuf.pop_grows hpop)
    next hpop => exact (SBuf.push_grows hpush).trans (SBuf.pop_grows hpop)

theorem pushBack_grows (s : Sender α) (t sov err : Nat) : s.pool.Grows (s.pushBack t sov err).pool := by
  unfold pushBack
  split
  next => exact .refl _
  next sbuf pool hback =>
    have hpool : s.pool.Grows pool := by
      unfold SBuf.pushSov at hback
      split at hback
      next =>
        cases Option.some.inj hback
        exact ⟨rfl, Nat.le_refl _⟩
      next => cases hback
    split
    next => exact .refl _
    next => exact hpool

theorem step_grows {op : SendOp α} (hs : s.step op = some s') : s.pool.Grows s'.pool := by
  cases Move.of_step hs with
  | @lock t buf => exact lock_grows s t buf
  | @wsaSend t sov fail =>
    cases fail with
    | none => exact .refl _
    | some err => exact .refl _
  | @pushBack t sov err => exact pushBack_grows s t sov err
  | conn _ _ init =>
    obtain ⟨⟨new, q⟩, halloc, hget⟩ := Option.map_eq_some_iff.mp init
    cases hget
    exact SBuf.alloc_grows halloc
  | otherPop alloc => exact SBuf.alloc_grows alloc
  | _ => exact ⟨rfl, Nat.le_refl _⟩

theorem exec_grows {ops : List (SendOp α)} (run : Machine.exec step s ops = some s') : s.pool.Grows s'.pool :=
  Machine.exec_invariant (I := fun m => s.pool.Grows m.pool) (fun _ _ _ h hs => h.trans (step_grows hs)) (.refl _) run

/-- No more `SOV`s of the session are out than `pop_cnt_` can count. -/
def Countable (s : Sender α) : Prop := s.out.length < 4294967296

instance (s : Sender α) : Decidable (Countable s) := inferInstanceAs (Decidable (_ < _))

/-- In an array of up to 178956970 entries a `push_back` stays inside the block. -/
theorem Owned.fits (h : Owned s) (hfit : s.pool.arrCnt ≤ 178956970) (op : SendOp α) : s.overruns op = false := by
  cases op with
  | lock t =>
    simp only [overruns]
    split
    next buf resumed _ =>
      cases buf with
      | none => rfl
      | some x =>
        cases hs : s.sbuf.sov with
        | none => simp only [SBuf.overruns, hs, Option.any_none]
        | some cur =>
          have hcap := h.pool.capacity cur (h.pool.busy_lt (mem_busy.mpr (Or.inl hs)))
          have hroom : (s.pool.sovs cur).slist.items.length < (s.pool.sovs cur).slist.capacity := by
            rw [hcap]
            exact h.room cur hs
          have hinside : (s.pool.sovs cur).slist.overruns = false := by
            rw [← Bool.not_eq_true, BufArray.overruns_iff hroom, hcap]
            exact Nat.not_lt.mpr hfit
          rw [SBuf.overruns, hs, Option.any_some, hinside, Bool.and_false]
    next => rfl
  | _ => rfl

/-- Where the sizes suffice, a step is one of the machine without them. -/
theorem Ready.of_sized (h : Ready s) (hfit : s.pool.arrCnt ≤ 178956970) {op : SendOp α}
    (hs : s.sizedStep op = some s') (hcount : Countable s') : s.step op = some s' := by
  rw [sizedStep, h.owned.fits hfit op, if_neg (by decide)] at hs
  obtain ⟨raw, hraw, rfl⟩ := Option.map_eq_some_iff.mp hs
  have hcnt : u32 (raw.sbuf.popCnt : Nat) = raw.sbuf.popCnt := by
    refine u32_of_lt ?_
    rw [(h.step hraw).1.owned.popCnt]
    exact hcount
  rw [hraw, stored, hcnt]

theorem Owned.out_le (h : Owned s) : s.out.length ≤ s.pool.totalCnt := by
  have hcard := congrArg Multiset.card h.pool.whole
  simp only [busy, Multiset.card_add, Multiset.coe_card, Multiset.card_range] at hcard
  omega

/-- And the other way around. -/
theorem Ready.sized (h : Ready s) (hfit : s.pool.arrCnt ≤ 178956970) {op : SendOp α} (hs : s.step op = some s')
    (hcount : Countable s') : s.sizedStep op = some s' := by
  have hcnt : u32 (s'.sbuf.popCnt : Nat) = s'.sbuf.popCnt := by
    refine u32_of_lt ?_
    rw [(h.step hs).1.owned.popCnt]
    exact hcount
  rw [sizedStep, h.owned.fits hfit op, if_neg (by decide), hs, Option.map_some, stored, hcnt]

/-- A whole run is one of the machine with sizes, if at its end no more `SOV`s have been created than can be counted. -/
theorem Ready.exec_sized (h : Ready s) (hfit : s.pool.arrCnt ≤ 178956970) {ops : List (SendOp α)}
    (run : Machine.exec Sender.step s ops = some s') (total : s'.pool.totalCnt < 4294967296) :
    Machine.exec sizedStep s ops = some s' ∧ Machine.Throughout sizedStep Countable s ops := by
  have countable : ∀ m : Sender α, Ready m → m.pool.Grows s'.pool → Countable m :=
    fun m hm grows => Nat.lt_of_le_of_lt (hm.owned.out_le.trans grows.totalCnt) total
  induction ops generalizing s with
  | nil =>
    refine ⟨run, fun before m hpre hm => ?_⟩
    rw [List.prefix_nil.mp hpre] at hm
    cases Option.some.inj hm
    exact countable _ h (exec_grows run)
  | cons op ops ih =>
    have hfirst := countable s h (exec_grows run)
    obtain ⟨mid, hm, run⟩ := Option.bind_eq_some_iff.mp run
    have hready := (h.step hm).1
    have hstep := h.sized hfit hm (countable mid hready (exec_grows run))
    obtain ⟨hrest, hall⟩ := ih hready ((step_grows hm).arrCnt.trans_le hfit) run
    refine ⟨?_, (Machine.throughout_cons hstep).mpr ⟨hfirst, hall⟩⟩
    rw [Machine.exec, hstep]
    exact hrest

/-- Nothing is left to do for the machine with sizes where nothing is for the one without. -/
theorem sizedStep_isSome {op : SendOp α} : (s.sizedStep op).isSome = (s.step op).isSome := by
  unfold sizedStep
  split
  next hover =>
    cases op with
    | lock t =>
      simp only [overruns] at hover
      split at hover
      next hpc => simp only [Sender.step, hpc, Option.isSome_some]
      next => cases hover
    | _ => cases hover
  next => exact Option.isSome_map

/-- What holds in every state while the sizes suffice. -/
structure Working (arrCnt : Nat) (s : Sender α) : Prop where
  ready : Ready s
  woken : Woken s
  accounted : Accounted s
  arrCnt : s.pool.arrCnt = arrCnt

theorem Working.step {arrCnt : Nat} (h : Working arrCnt s) {op : SendOp α} (hs : s.step op = some s') :
    Working arrCnt s' :=
  ⟨(h.ready.step hs).1, h.ready.woken h.woken hs, h.ready.accounted h.accounted hs, (step_grows hs).arrCnt.trans h.arrCnt⟩

/-- Send batching loses and strands nothing. -/
theorem send_strands_nothing {initCnt stepCnt arrCnt : Nat} (hstep : 0 < stepCnt) (harr : 0 < arrCnt)
    (hfit : arrCnt ≤ 178956970) {ops : List (SendOp α)}
    (countable : Machine.Throughout sizedStep Countable (start initCnt stepCnt arrCnt) ops) {s : Sender α}
    (run : Machine.exec sizedStep (start initCnt stepCnt arrCnt) ops = some s) :
    s.crashed = false ∧
    (s.sbuf.popCnt = s.out.length ∧ s.out.Nodup ∧ ∀ t id err, s.thread t = .cleared id err → 0 < s.sbuf.popCnt) ∧
    (∀ t, s.thread t ≠ .idle → ∃ cur, s.sbuf.sov = some cur ∧ (s.pool.sovs cur).slist.isFull = false) ∧
    (∀ id ∈ s.pool.free, s.pool.items id = []) ∧
    (s.accepted.Perm (s.handed.flatten ++ (s.hand.flatMap s.pool.items ++ s.current)) ∧
      ∀ id ∈ s.hand, ∃ t, s.thread t = .popped id) ∧
    (s.isConnected = true → s.sbuf.popCnt = 0 → (∀ t, (s.thread t).returning = false) → s.current = []) := by
  have hstart : Working arrCnt (start initCnt stepCnt arrCnt : Sender α) :=
    ⟨ready_start hstep harr, (by intro hc; cases hc), .nil, (SOVPool.create_grows _ initCnt).arrCnt⟩
  obtain ⟨_, h, w, a, _⟩ := Machine.exec_within (fun _ _ _ hw _ hs => hw.step hs)
    (fun _ _ _ hw _ hs hcount => hw.ready.of_sized (hw.arrCnt.trans_le hfit) hs hcount) hstart
    (Machine.along_of_forall (fun _ _ _ => trivial) _) countable run
  refine ⟨h.sound, ⟨h.owned.popCnt, h.owned.holders.outOnce, fun t id err hpc => ?_⟩, fun t hpc => ?_,
    h.owned.pool.empty, ⟨a, fun id hid => (h.owned.holders.inHand id).mp hid⟩, fun hc hz hr => ?_⟩
  · obtain ⟨_, _, _, _, hpos, _⟩ := h.owned.pushBack_cases hpc
    exact hpos
  · obtain ⟨cur, hcur⟩ := h.sov_some hpc
    have hroom := h.owned.room cur hcur
    have hcap := h.owned.pool.capacity cur (h.owned.pool.busy_lt (mem_busy.mpr (Or.inl hcur)))
    have hne : (s.pool.sovs cur).slist.capacity ≠ (s.pool.items cur).length := by omega
    exact ⟨cur, hcur, by simpa [BufArray.isFull, SOVPool.items] using hne⟩
  · by_contra hne
    obtain ⟨t, ht⟩ := w hc hz hne
    rw [hr t] at ht
    cases ht

/-- A `Buf` is accepted while another is in flight; the completion's thread sends it. -/
theorem send_strands_nothing_sample :
    ∃ s : Sender Nat, Machine.exec sizedStep (start 1 1 2)
      [.conn 0, .call 0 (some 7), .lock 0, .call 1 (some 8), .lock 1, .wsaSend 0 none, .complete 2 0 0, .clear 2,
        .pushBack 2, .check 2, .resume 2, .lock 2, .wsaSend 2 none] = some s ∧
      s.handed = [[7], [8]] ∧ s.crashed = false ∧ s.sbuf.popCnt = s.out.length := by
  have run : ∃ s : Sender Nat, Machine.exec sizedStep (start 1 1 2)
      [.conn 0, .call 0 (some 7), .lock 0, .call 1 (some 8), .lock 1, .wsaSend 0 none, .complete 2 0 0, .clear 2,
        .pushBack 2, .check 2, .resume 2, .lock 2, .wsaSend 2 none] = some s ∧ s.handed = [[7], [8]] ∧ Countable s :=
    ⟨_, rfl, rfl, by decide⟩
  obtain ⟨s, run, hhanded, hend⟩ := run
  have h := send_strands_nothing (by decide) (by decide) (by decide)
    (Machine.throughout_of_along (P := Countable) (by decide) run hend) run
  exact ⟨s, run, hhanded, h.1, h.2.1.1⟩

/-- `reserve(178956971)` allocates 8 bytes, and the first `push_back` writes its `Mem*` behind them. -/
theorem send_writes_outside :
    ∃ s : Sender Nat, Machine.exec sizedStep (start 1 1 178956971) [.conn 0, .call 0 (some 7), .lock 0] = some s ∧
      (s.pool.sovs 0).slist.mallocSize = 8 ∧ 8 < (s.pool.sovs 0).slist.capacity * sizeofWSABUF + sizeofMemPtr ∧
      s.crashed = true :=
  ⟨_, rfl, rfl, by decide, rfl⟩

end Sender

end Ven
