import Ven.SendBatches
import Mathlib.Data.List.Infix

namespace Ven

variable {α : Type}

namespace Sender

/-- A thread submits its `SOV` only if none that was popped earlier is still in somebody's hands. -/
def InTurn (s : Sender α) : SendOp α → Prop
  | .wsaSend t _ => s.hand.head? = (s.thread t).sov
  | _ => True

/-- What was submitted so far was accepted first, in this order. -/
def Ordered (s : Sender α) : Prop := s.handed.flatten <+: s.accepted

/-- What was submitted and what is pending make up what was accepted, in this order. -/
def InOrder (s : Sender α) : Prop := s.accepted = s.handed.flatten ++ s.pending

variable {s s' : Sender α}

theorem InOrder.ordered (a : InOrder s) : Ordered s := ⟨s.pending, a.symm⟩

theorem Ready.inOrder (h : Ready s) (a : InOrder s) {op : SendOp α} (turn : InTurn s op)
    (hs : s.step op = some s') : InOrder s' := by
  unfold InOrder at a ⊢
  obtain ⟨_, moved⟩ := h.step hs
  cases moved with
  | accept added accepted handed pending _ => rw [accepted, handed, pending, a, List.append_assoc]
  | submit id pc accepted handed pending =>
    have hhead : s.hand.head? = some id := turn.trans (Holders.popped_sov pc)
    obtain ⟨rest, hrest⟩ : ∃ rest, s.hand = id :: rest := by
      cases hh : s.hand with
      | nil =>
        rw [hh] at hhead
        cases hhead
      | cons k rest =>
        rw [hh] at hhead
        cases Option.some.inj hhead
        exact ⟨rest, rfl⟩
    rw [accepted, handed, pending, a, Sender.pending, hrest, List.flatMap_cons, List.erase_cons_head,
      List.flatten_append, List.flatten_singleton]
    simp only [List.append_assoc]

theorem Ready.accepted_grows (h : Ready s) {op : SendOp α} (hs : s.step op = some s') : s.accepted <+: s'.accepted := by
  obtain ⟨_, moved⟩ := h.step hs
  cases moved with
  | accept added accepted _ _ _ => exact ⟨added, accepted.symm⟩
  | submit id _ accepted _ _ =>
    rw [accepted]

theorem Ready.accepted_run (h : Ready s) {ops : List (SendOp α)} (run : Machine.exec Sender.step s ops = some s') :
    s.accepted <+: s'.accepted := by
  have keep : ∀ (u : Sender α) op u', Ready u ∧ s.accepted <+: u.accepted → u.step op = some u' →
      Ready u' ∧ s.accepted <+: u'.accepted :=
    fun u op u' hu hs => ⟨(hu.1.step hs).1, hu.2.trans (hu.1.accepted_grows hs)⟩
  exact (Machine.exec_invariant keep ⟨h, List.prefix_refl _⟩ run).2

/-- Out of turn, what is submitted is not what was accepted next. -/
theorem Ready.turn (h : Ready s) (a : InOrder s) (distinct : s.accepted.Nodup) {op : SendOp α}
    (hs : s.step op = some s') (ordered : Ordered s') : InTurn s op := by
  obtain ⟨_, moved⟩ := h.step hs
  cases moved with
  | accept _ _ _ _ other =>
    cases op with
    | wsaSend t fail => exact absurd rfl (other t fail)
    | _ => exact trivial
  | submit k pc accepted handed _ =>
    have hid := (h.owned.holders.inHand k).mpr ⟨_, pc⟩
    change s.hand.head? = _
    rw [Holders.popped_sov pc]
    cases hh : s.hand with
    | nil =>
      rw [hh] at hid
      cases hid
    | cons j rest =>
      by_contra hne
      have hjk : j ≠ k := by
        intro hjk
        subst hjk
        exact hne rfl
      have hrest : k ∈ rest := (List.mem_cons.mp (hh ▸ hid)).resolve_left (Ne.symm hjk)
      unfold Ordered at ordered
      rw [handed, accepted, a, List.flatten_append, List.flatten_singleton, Sender.pending, hh, List.flatMap_cons,
        List.append_assoc, List.prefix_append_right_inj] at ordered
      obtain ⟨x, xs, hx⟩ := List.exists_cons_of_ne_nil (h.owned.filled k hid)
      obtain ⟨y, ys, hy⟩ := List.exists_cons_of_ne_nil (h.owned.filled j (hh ▸ List.mem_cons_self))
      rw [hx, hy, List.cons_append, List.cons_prefix_cons] at ordered
      have hnodup : (s.hand.flatMap s.pool.items).Nodup := by
        rw [a, Sender.pending] at distinct
        exact (List.nodup_append.mp (List.nodup_append.mp distinct).2.1).1
      rw [hh, List.nodup_flatMap, List.pairwise_cons] at hnodup
      have hdisj := hnodup.2.1 k hrest
      refine hdisj (a := x) ?_ ?_
      · rw [hy, ordered.1]
        exact List.mem_cons_self
      · rw [hx]
        exact List.mem_cons_self

/-- Runs from a state in which everything is in order. -/
theorem Ready.ordered_iff (h : Ready s) (a : InOrder s) {ops : List (SendOp α)}
    (run : Machine.exec Sender.step s ops = some s') :
    (Machine.Along Sender.step InTurn s ops → Ordered s') ∧
    (s'.accepted.Nodup → (∀ pre post mid, ops = pre ++ post → Machine.exec Sender.step s pre = some mid → Ordered mid) →
      Machine.Along Sender.step InTurn s ops) := by
  constructor
  · intro turns
    have keep : ∀ (u : Sender α) op u', Ready u ∧ InOrder u → InTurn u op → u.step op = some u' →
        Ready u' ∧ InOrder u' :=
      fun u op u' hu turn hs => ⟨(hu.1.step hs).1, hu.1.inOrder hu.2 turn hs⟩
    exact (Machine.exec_invariant_along keep ⟨h, a⟩ turns run).2.ordered
  · intro distinct ordered
    induction ops generalizing s with
    | nil => exact trivial
    | cons op ops ih =>
      obtain ⟨mid, hm, hrest⟩ := Option.bind_eq_some_iff.mp run
      have hacc := distinct.sublist (((h.accepted_grows hm).trans ((h.step hm).1.accepted_run hrest)).sublist)
      have hmid : Ordered mid := ordered [op] ops mid rfl (by simp [Machine.exec, hm])
      have turn := h.turn a hacc hm hmid
      refine ⟨turn, fun u hu => ?_⟩
      cases Option.some.inj (hm.symm.trans hu)
      apply ih (h.step hm).1 (h.inOrder a turn hm) hrest
      intro pre post v hops hv
      apply ordered (op :: pre) post v (by rw [hops]; rfl)
      simp [Machine.exec, hm, hv]

/-- The order of submission is the order of acceptance in every state of a run exactly if every
submission is made in turn; for the converse the accepted `Buf`s are told apart. -/
theorem send_order_iff {initCnt stepCnt arrCnt : Nat} (hstep : 0 < stepCnt) (harr : 0 < arrCnt)
    {ops : List (SendOp α)} {s : Sender α} (run : Machine.exec Sender.step (start initCnt stepCnt arrCnt) ops = some s) :
    (Machine.Along Sender.step InTurn (start initCnt stepCnt arrCnt) ops →
      ∀ pre post mid, ops = pre ++ post → Machine.exec Sender.step (start initCnt stepCnt arrCnt) pre = some mid →
        mid.handed.flatten <+: mid.accepted) ∧
    (s.accepted.Nodup →
      (∀ pre post mid, ops = pre ++ post → Machine.exec Sender.step (start initCnt stepCnt arrCnt) pre = some mid →
        mid.handed.flatten <+: mid.accepted) →
      Machine.Along Sender.step InTurn (start initCnt stepCnt arrCnt) ops) := by
  have h : Ready (start initCnt stepCnt arrCnt : Sender α) := ready_start hstep harr
  have a : InOrder (start initCnt stepCnt arrCnt : Sender α) := rfl
  refine ⟨fun turns pre post mid hops hmid => ?_, (h.ordered_iff a run).2⟩
  rw [hops] at turns
  exact (h.ordered_iff a hmid).1 (Machine.along_append turns)

/-- A full array is popped while the one before is still in another thread's hands, and overtakes it. -/
theorem send_out_of_order :
    ∃ s : Sender Nat, Machine.exec Sender.step (start 1 1 1)
      [.conn 0, .call 0 (some 7), .call 1 (some 8), .lock 0, .lock 1, .wsaSend 1 none, .wsaSend 0 none] = some s ∧
      s.accepted = [7, 8] ∧ s.handed = [[8], [7]] ∧ ¬s.handed.flatten <+: s.accepted := by
  refine ⟨_, rfl, rfl, rfl, ?_⟩
  change ¬[8, 7] <+: [7, 8]
  decide

theorem send_order_iff_sample :
    ∃ s : Sender Nat, Machine.exec Sender.step (start 1 1 1)
      [.conn 0, .call 0 (some 7), .call 1 (some 8), .lock 0, .wsaSend 0 none, .lock 1, .wsaSend 1 none] = some s ∧
      s.handed = [[7], [8]] ∧ s.handed.flatten <+: s.accepted := by
  have run : ∃ s : Sender Nat, Machine.exec Sender.step (start 1 1 1)
      [.conn 0, .call 0 (some 7), .call 1 (some 8), .lock 0, .wsaSend 0 none, .lock 1, .wsaSend 1 none] = some s ∧
      s.handed = [[7], [8]] := ⟨_, rfl, rfl⟩
  obtain ⟨s, run, hhanded⟩ := run
  refine ⟨s, run, hhanded, (send_order_iff (by decide) (by decide) run).1 ?_ _ [] s (List.append_nil _).symm run⟩
  exact Machine.along_cons trivial rfl (Machine.along_cons trivial rfl (Machine.along_cons trivial rfl
    (Machine.along_cons trivial rfl (Machine.along_cons rfl rfl (Machine.along_cons trivial rfl
      (Machine.along_cons rfl rfl trivial))))))

end Sender

end Ven
