import Ven.Delivery
import Ven.ZeroCopy

namespace Ven

variable {σ : Type} {P : IMemPool σ} {C : PoolContract P} {V : ISessionTCP}

open Receiver

/-- Every send array has room for its entries. -/
def Receiver.Roomy (s : Receiver σ) : Prop :=
  ∀ a ∈ s.sends, a.items.length ≤ a.capacity ∧ a.capacity ≤ 178956970

theorem BufArray.roomy_fits {slist : BufArray Buf} (hlen : slist.items.length ≤ slist.capacity)
    (hcap : slist.capacity ≤ 178956970) : (!slist.isFull && slist.overruns) = false := by
  rw [Bool.and_eq_false_iff]
  by_cases hfull : slist.isFull = true
  · exact Or.inl (by rw [hfull]; rfl)
  · have hne : slist.capacity ≠ slist.items.length := by simpa [BufArray.isFull] using hfull
    have hiff := BufArray.overruns_iff (a := slist) (by omega)
    refine Or.inr (Bool.eq_false_of_not_eq_true fun h => ?_)
    have := hiff.mp h
    omega

theorem Receiver.Roomy.fits {s : Receiver σ} (h : s.Roomy) (op : UserOp) : s.overruns op = false := by
  have hany : ∀ a : Nat, (s.sends[a]?.any fun slist => !slist.isFull && slist.overruns) = false := by
    intro a
    cases ha : s.sends[a]? with
    | none => rfl
    | some slist =>
      obtain ⟨hlen, hcap⟩ := h slist (List.mem_of_getElem? ha)
      exact BufArray.roomy_fits hlen hcap
  cases op with
  | send a => rw [Receiver.overruns, hany, Bool.and_false]
  | sendKept i a => rw [Receiver.overruns, hany, Bool.and_false]
  | _ => rfl

theorem Receiver.Roomy.set {s : Receiver σ} (h : s.Roomy) (a : Nat) {y : BufArray Buf}
    (hy : y.items.length ≤ y.capacity ∧ y.capacity ≤ 178956970) {t : Receiver σ} (ht : t.sends = s.sends.set a y) :
    t.Roomy := by
  intro z hz
  rw [ht] at hz
  rcases List.mem_or_eq_of_mem_set hz with hz | rfl
  · exact h z hz
  · exact hy

theorem BufArray.pushBack_roomy {a a' : BufArray Buf} {b : Buf} (h : a.pushBack b = some a')
    (ha : a.items.length ≤ a.capacity ∧ a.capacity ≤ 178956970) :
    a'.items.length ≤ a'.capacity ∧ a'.capacity ≤ 178956970 := by
  unfold BufArray.pushBack at h
  split at h
  next => cases h
  next hfull =>
    cases Option.some.inj h
    have hne : a.capacity ≠ a.items.length := by simpa [BufArray.isFull] using hfull
    refine ⟨?_, ha.2⟩
    change (a.items ++ [b]).length ≤ a.capacity
    rw [List.length_append, List.length_singleton]
    omega

theorem Receiver.Roomy.user {s : Receiver σ} (h : s.Roomy) (op : UserOp) : (s.user P op).Roomy := by
  cases op with
  | send a =>
    simp only [Receiver.user]
    split
    next => exact h
    next =>
      split
      next => exact h
      next slist ha =>
        split
        next => exact h
        next slist' hp => exact h.set a (BufArray.pushBack_roomy hp (h slist (List.mem_of_getElem? ha))) rfl
  | sendKept i a =>
    simp only [Receiver.user]
    split
    next b slist hb ha =>
      split
      next => exact h
      next =>
        split
        next => exact h
        next slist' hp => exact h.set a (BufArray.pushBack_roomy hp (h slist (List.mem_of_getElem? ha))) rfl
    next => exact h
  | clear a =>
    simp only [Receiver.user]
    split
    next => exact h
    next slist ha =>
      exact h.set a (y := { slist with items := [] }) ⟨Nat.zero_le _, (h slist (List.mem_of_getElem? ha)).2⟩ rfl
  | copy => exact h
  | _ =>
    simp only [Receiver.user, Receiver.disconnect]
    (repeat' split) <;> exact h

namespace Delivering

/-- What holds where the thread stands: everything below `head_` may still be held by the user, and in `on_recv` the
frame that was passed to it too. -/
def Inv (C : PoolContract P) (d : Delivering σ) : Prop :=
  match d.pos with
  | .rest => SessionInv C d.session
  | .inConn => SessionInv C d.session ∧ (d.session.isConnected = true → ∃ id, d.session.rbuf.buf.mem = some id)
  | .inLoop => Resting C d.session ∧ d.session.isReceiving = true ∧ ∃ id, d.session.rbuf.buf.mem = some id
  | .inCall psize => ReceiverInv C (d.session.rbuf.head + psize) d.session ∧ d.session.isReceiving = true ∧
      ∃ id, d.session.rbuf.buf.mem = some id

/-- No write of this step goes behind its block: the one that the pool has for a packet that `check_size` makes room
for holds the bytes received so far, and so does the block of a send array its entries. -/
def CopyFits (V : ISessionTCP) (P : IMemPool σ) (d : Delivering σ) : DeliverOp → Prop
  | .turn => ∀ psize, V.getPacketSize d.session.window = some psize → V.isValidPacketSize psize = true →
      d.session.rbuf.dataLen < psize → d.session.ram.unitAt d.session.rbuf.buf < psize →
      d.session.rbuf.dataLen ≤ (P.get d.session.ram (u32 (psize * 2))).1.len
  | .user op => d.session.overruns op = false
  | _ => True

instance (V : ISessionTCP) (P : IMemPool σ) (d : Delivering σ) : ∀ op, Decidable (d.CopyFits V P op)
  | .turn => decidable_of_iff ((V.getPacketSize d.session.window).all (fun psize => decide
      (V.isValidPacketSize psize = true → d.session.rbuf.dataLen < psize → d.session.ram.unitAt d.session.rbuf.buf < psize →
        d.session.rbuf.dataLen ≤ (P.get d.session.ram (u32 (psize * 2))).1.len)) = true)
      (by simp only [Option.all_eq_true, decide_eq_true_eq, CopyFits])
  | .user op => inferInstanceAs (Decidable (d.session.overruns op = false))
  | .conn => isTrue trivial
  | .connected => isTrue trivial
  | .complete _ _ => isTrue trivial
  | .returned => isTrue trivial
  | .disc => isTrue trivial

/-- No block has 2^32 holders. -/
def Countable (d : Delivering σ) : Prop := ∀ id, d.session.holders.count id < 4294967296

variable {d d' : Delivering σ}

/-- There are no more holders than `Buf`s and detached owners. -/
theorem countable_of_small (h : d.session.others.length + d.session.dettached.length + d.session.userBufs.length + 1 <
    4294967296) : d.Countable := by
  intro id
  have hothers := card_heldBy_le d.session.others
  have huser := card_heldBy_le d.session.userBufs
  have hrbuf : d.session.rbuf.buf.held.card ≤ 1 := by
    have hle := card_heldBy_le [d.session.rbuf.buf]
    rwa [heldBy_cons, heldBy_nil, add_zero] at hle
  have hcard : d.session.holders.card = (heldBy d.session.others).card + d.session.dettached.length +
      (d.session.rbuf.buf.held.card + (heldBy d.session.userBufs).card) := by
    rw [holders, othersHeld, mine, Multiset.card_add, Multiset.card_add, Multiset.card_add, Multiset.coe_card]
  exact Nat.lt_of_le_of_lt (Multiset.count_le_card id _) (by omega)

theorem Inv.any (h : d.Inv C) : ∃ lim, ReceiverInv C lim d.session := by
  obtain ⟨pos, s⟩ := d
  cases pos with
  | rest => exact ⟨_, SessionInv.rest h |>.inv⟩
  | inConn => exact ⟨_, h.1.rest.inv⟩
  | inLoop => exact ⟨_, h.1.inv⟩
  | inCall psize => exact ⟨_, h.1⟩

theorem Inv.conn (hu : C.Units32) (hsize : V.receiveBufferSize < 4294967296) {s : Receiver σ} (h : SessionInv C s)
    (hm : s.rbuf.buf.mem = none) : Inv C ⟨.inConn, s.initRBuf V P⟩ := by
  obtain ⟨hi, id, m, ok, _⟩ := h.init (P := P) hu hsize hm
  exact ⟨⟨hi, fun hr => by cases hr⟩, fun _ => ⟨id, ok.mem⟩⟩

theorem Inv.connected {s : Receiver σ} (h : Inv C ⟨.inConn, s⟩) : SessionInv C s.recv := by
  obtain ⟨hi, hblock⟩ := h
  unfold recv
  split
  next hc => exact ⟨hi.rest.flags _ true _, fun _ => hblock hc⟩
  next => exact hi

theorem Receiver.fill_receiving (s : Receiver σ) (data : List UInt8) : (s.fill data).isReceiving = s.isReceiving := by
  unfold Receiver.fill
  split
  next => rfl
  next => rfl

theorem Inv.complete {s : Receiver σ} (h : SessionInv C s) (hr : s.isReceiving = true) (err : Nat) {data : List UInt8}
    (hfit : data.length ≤ s.rbuf.remainLen s.ram) : Inv C (Delivering.complete ⟨.rest, s⟩ err data) := by
  unfold Delivering.complete
  dsimp only
  split
  next => exact h.failed hr hfit err
  next =>
    obtain ⟨id, hm⟩ := h.posted hr
    obtain ⟨hi, hm', _⟩ := h.rest.fill hm hfit
    exact ⟨hi, (Receiver.fill_receiving s data).trans hr, id, hm'⟩

theorem Inv.turn (hu : C.Units32) {s : Receiver σ} (h : Inv C ⟨.inLoop, s⟩) (fits : CopyFits V P ⟨.inLoop, s⟩ .turn) :
    Inv C (Delivering.turn V P ⟨.inLoop, s⟩) := by
  obtain ⟨hi, hr, id, hm⟩ := h
  have finish : ∀ {t : Receiver σ} {id : Nat}, Resting C t → t.rbuf.buf.mem = some id → SessionInv C (t.finish P) := by
    intro t id ht hid
    obtain ⟨hrest, hrec⟩ := ht.finish hu hid []
    exact ⟨hrest, fun _ => hrec.block⟩
  unfold Delivering.turn
  dsimp only
  cases hg : V.getPacketSize s.window with
  | none => exact finish hi hm
  | some psize =>
    dsimp only
    by_cases hval : V.isValidPacketSize psize = true
    · rw [if_neg (not_not.mpr hval)]
      by_cases hp : psize ≤ s.rbuf.dataLen
      · rw [if_pos hp]
        obtain ⟨hcall, _⟩ := hi.call hm hp
        have hsame : (s.call psize).rbuf = s.rbuf ∧ (s.call psize).isReceiving = s.isReceiving := by
          rw [call_eq hm]
          exact ⟨rfl, rfl⟩
        refine ⟨?_, hsame.2.trans hr, id, by rw [hsame.1]; exact hm⟩
        change ReceiverInv C ((s.call psize).rbuf.head + psize) (s.call psize)
        rw [hsame.1]
        exact hcall
      · rw [if_neg hp]
        obtain ⟨_, _, m, ok⟩ := hi.inv.block id hm
        have hpool : C.Inv s.ram (s.rbuf.buf.held + s.rest) := by
          rw [← holders_eq]
          exact hi.inv.pool
        obtain ⟨hi', ⟨id', hm'⟩, _⟩ := hi.rearrange (RBuf.checkSize_fits C hu ok hpool
          fun hlt => fits psize hg hval (Nat.lt_of_not_le hp) hlt)
        exact finish hi' hm'
    · rw [if_pos hval]
      refine ⟨(hi.flags _ false _).disconnect 16000, fun hrec => ?_⟩
      unfold Receiver.disconnect at hrec
      split at hrec <;> cases hrec

theorem Inv.returned {s : Receiver σ} {psize : Nat} (h : Inv C ⟨.inCall psize, s⟩) :
    Inv C ⟨.inLoop, s.afterCall P psize⟩ := by
  obtain ⟨hi, hr, id, hm⟩ := h
  obtain ⟨hrest, _⟩ := hi.afterCall (P := P) hm
  exact ⟨hrest, hr, id, hm⟩

theorem Inv.user (h : d.Inv C) {op : UserOp} (fits : d.session.overruns op = false) : (d.user P op).Inv C := by
  obtain ⟨pos, s⟩ := d
  have hsame : Delivering.user P ⟨pos, s⟩ op = ⟨pos, s.user P op⟩ := by
    simp only [Delivering.user, fits, Bool.false_eq_true, if_false]
  have hmem : ∀ {lim}, ReceiverInv C lim s → (∃ id, s.rbuf.buf.mem = some id) →
      ∃ id, (s.user P op).rbuf.buf.mem = some id := by
    intro lim hi hid
    rw [(hi.user op).2.rbuf]
    exact hid
  rw [hsame]
  cases pos with
  | rest => exact (SessionInv.user h op).1
  | inConn =>
    obtain ⟨hi, hblock⟩ := h
    refine ⟨(hi.user op).1, fun hc => hmem hi.rest.inv (hblock ?_)⟩
    by_cases hop : op = .disconnect
    · subst hop
      simp only [Receiver.user, Receiver.disconnect] at hc
      split at hc
      next => cases hc
      next => exact hc
    · exact (user_connected (P := P) (s := s) hop).1.symm.trans hc
  | inLoop =>
    obtain ⟨hi, hr, hid⟩ := h
    obtain ⟨hi', hb⟩ := hi.user (P := P) op
    exact ⟨hi', hb.receiving.trans hr, hmem hi.inv hid⟩
  | inCall psize =>
    obtain ⟨hi, hr, hid⟩ := h
    obtain ⟨hi', hb⟩ := hi.user (P := P) op
    refine ⟨?_, hb.receiving.trans hr, hmem hi hid⟩
    change ReceiverInv C ((s.user P op).rbuf.head + psize) (s.user P op)
    rw [hb.rbuf]
    exact hi'

theorem Inv.disc {pos : RecvAt} {s : Receiver σ} (h : Inv C ⟨pos, s⟩) (hc : s.isConnected = false)
    (hr : s.isReceiving = false) : Inv C ⟨pos, s.onDisc P⟩ := by
  cases pos with
  | rest => exact SessionInv.disc h hr
  | inConn => exact ⟨h.1.disc hr, fun hcon => by cases hc.symm.trans hcon⟩
  | inLoop => cases hr.symm.trans h.2.1
  | inCall psize => cases hr.symm.trans h.2.1

/-- A step whose writes stay inside their blocks keeps the invariant. -/
theorem Inv.step (hu : C.Units32) (hsize : V.receiveBufferSize < 4294967296) (h : d.Inv C) {op : DeliverOp}
    (fits : d.CopyFits V P op) (hs : d.step V P op = some d') : d'.Inv C := by
  obtain ⟨pos, s⟩ := d
  cases op with
  | conn =>
    obtain ⟨⟨hpos, hm, _⟩, he⟩ := Option.ite_none_right_eq_some.mp hs
    cases Option.some.inj he
    cases hpos
    exact Inv.conn hu hsize h hm
  | connected =>
    obtain ⟨hpos, he⟩ := Option.ite_none_right_eq_some.mp hs
    cases Option.some.inj he
    cases hpos
    exact Inv.connected h
  | complete err data =>
    obtain ⟨⟨hpos, hr, hfit⟩, he⟩ := Option.ite_none_right_eq_some.mp hs
    cases Option.some.inj he
    cases hpos
    exact Inv.complete h hr err hfit
  | turn =>
    obtain ⟨hpos, he⟩ := Option.ite_none_right_eq_some.mp hs
    cases Option.some.inj he
    cases hpos
    exact Inv.turn hu h fits
  | returned =>
    cases pos with
    | inCall psize =>
      cases Option.some.inj hs
      exact Inv.returned h
    | rest => cases hs
    | inConn => cases hs
    | inLoop => cases hs
  | disc =>
    obtain ⟨hno, he⟩ := Option.ite_none_left_eq_some.mp hs
    cases Option.some.inj he
    obtain ⟨hc, hr⟩ := not_or.mp hno
    exact Inv.disc h (Bool.eq_false_of_not_eq_true hc) (Bool.eq_false_of_not_eq_true hr)
  | user op =>
    cases Option.some.inj hs
    exact h.user fits

/-- Counters that fit are stored as they are. -/
theorem Inv.stored_eq (h : d.Inv C) (countable : d.Countable) : d.stored = d := by
  obtain ⟨lim, hi⟩ := h.any
  have hheap : d.session.ram.heap.stored = d.session.ram.heap :=
    Heap.stored_eq fun id m hm => C.ref_eq hi.pool hm ▸ countable id
  rw [stored, hheap]

end Delivering

open Delivering

/-- A session before its first connection. -/
def Delivering.start (r : Ram σ) (others : List Buf) (dettached : List Nat) (sends : List (BufArray Buf)) : Delivering σ :=
  ⟨.rest, Receiver.start r others dettached sends⟩

/-- Zero-copy delivery is stable in every run whose writes stay inside their blocks and whose counters of references
stay below 2^32: as long as anybody holds the block of a delivered frame, its bytes are neither in the window that a
receive is posted with, nor in a block that the pool hands out, nor in one that somebody else can write to, nor have
they been written since the delivery; the frames of different calls do not overlap; and what the user kept are such
frames. -/
theorem delivered_frames_stable (C : PoolContract P) (hu : C.Units32) (hsize : V.receiveBufferSize < 4294967296)
    {r : Ram σ} {others : List Buf} {dettached : List Nat} {sends : List (BufArray Buf)}
    (hinit : C.Inv r (heldBy others + (dettached : Multiset Nat))) (hempty : ∀ a ∈ sends, a.items = [])
    {ops : List DeliverOp} {d : Delivering σ}
    (run : Machine.exec (deliverStep V P) (Delivering.start r others dettached sends) ops = some d)
    (fits : Machine.Along (deliverStep V P) (CopyFits V P) (Delivering.start r others dettached sends) ops)
    (countable : Machine.Throughout (deliverStep V P) Countable (Delivering.start r others dettached sends) ops) :
    (∀ f ∈ d.session.frames, f.written = false) ∧
    (∀ f ∈ d.session.frames, f.live = true → d.session.ram.heap.load f.mem f.off f.len = f.data ∧
      (d.session.rbuf.buf.mem = some f.mem → f.off + f.len ≤ d.session.rbuf.tail) ∧
      f.mem ∉ d.session.othersHeld ∧ ∀ size, (P.get d.session.ram size).1.mem ≠ some f.mem) ∧
    (∀ (j k : Nat) (f g : Frame), d.session.frames[j]? = some f → d.session.frames[k]? = some g → j ≠ k →
      f.live = true → g.live = true → f.mem = g.mem → f.off + f.len ≤ g.off ∨ g.off + g.len ≤ f.off) ∧
    (∀ b ∈ d.session.kept ++ d.session.sends.flatMap BufArray.items, b.mem ≠ none →
      ∃ f ∈ d.session.frames, f.live = true ∧ b = ⟨some f.mem, f.off, f.len⟩) := by
  have hstart : Delivering.Inv C (Delivering.start r others dettached sends) := sessionInv_start C hinit hempty
  obtain ⟨_, h⟩ := Machine.exec_stored (fun _ _ _ h hf hs => Delivering.Inv.step hu hsize h hf hs)
    (fun _ h hc => h.stored_eq hc) hstart fits countable run
  obtain ⟨lim, i⟩ := h.any
  refine ⟨i.clean, ?_, ?_, ?_⟩
  · intro f hf hl
    have fo := i.frames f hf hl
    refine ⟨fo.data, ?_, fo.alone, ?_⟩
    · intro hm
      obtain ⟨_, hle, _⟩ := i.block f.mem hm
      have := fo.below hm
      omega
    · intro size hget
      obtain ⟨id, m, hb, hfresh, _⟩ := C.get size i.pool
      rw [hb] at hget
      exact hfresh (Option.some.inj hget ▸ mem_holders fo.held)
  · exact fun j k f g hf hg hjk hfl hgl he => i.separate hf hg hjk hfl hgl he
  · intro b hb hm
    obtain ⟨id, hid⟩ := Option.ne_none_iff_exists'.mp hm
    exact i.owned b (List.mem_cons_of_mem _ hb) id hid

/-- The first frame is copied and the second one sent; then the receive block is exchanged. -/
theorem delivered_frames_stable_sample :
    ∃ d, Machine.exec (deliverStep (SessionTCP.defaults 16) memPool)
      (Delivering.start (MemPool.init ⟨[16], fun _ => ⟨1, 1⟩, by decide⟩) [] [] [⟨2, []⟩])
      [.conn, .connected, .complete 0 [5, 0, 0, 0, 9, 6, 0, 0, 0, 7, 8], .turn, .user .copy, .returned, .turn,
        .user (.send 0), .returned, .turn, .complete 0 [5, 0, 0], .turn, .user (.other (.get 16))] = some d ∧
      (∀ f ∈ d.session.frames, f.written = false) := by
  have run : ∃ d, Machine.exec (deliverStep (SessionTCP.defaults 16) memPool)
      (Delivering.start (MemPool.init ⟨[16], fun _ => ⟨1, 1⟩, by decide⟩) [] [] [⟨2, []⟩])
      [.conn, .connected, .complete 0 [5, 0, 0, 0, 9, 6, 0, 0, 0, 7, 8], .turn, .user .copy, .returned, .turn,
        .user (.send 0), .returned, .turn, .complete 0 [5, 0, 0], .turn, .user (.other (.get 16))] = some d ∧
      d.session.others.length + d.session.dettached.length + d.session.userBufs.length + 1 < 4294967296 :=
    ⟨_, rfl, by decide⟩
  obtain ⟨d, run, hend⟩ := run
  have hinit : (memPool_contract (MemPool.configured ⟨[16], fun _ => ⟨1, 1⟩, by decide⟩) fun _ => none).Inv
      (MemPool.init ⟨[16], fun _ => ⟨1, 1⟩, by decide⟩) (heldBy [] + (([] : List Nat) : Multiset Nat)) :=
    MemPool.inv_init (by decide)
  have small := Machine.throughout_of_along (P := fun t : Delivering MemPool =>
    t.session.others.length + t.session.dettached.length + t.session.userBufs.length + 1 < 4294967296) (by decide) run hend
  have h := delivered_frames_stable _ (memPool_units32 (by decide) _) (by decide) hinit (by decide) run (by decide)
    fun before t hpre hrun => countable_of_small (small before t hpre hrun)
  exact ⟨d, run, h.1⟩

/-- A validator that accepts 2^31 + 2: the pool is asked for 4 bytes, and the 7 received are copied there, over a
frame that the user has kept. -/
theorem kept_frame_overwritten :
    ∃ d, Machine.exec (deliverStep ⟨SessionTCP.getPacketSize, fun _ => true, 4, 16⟩ memPool)
      (Delivering.start (MemPool.init ⟨[4, 16], fun _ => ⟨1, 1⟩, by decide⟩) [] [] [])
      [.conn, .connected, .complete 0 [5, 0, 0, 0, 9, 2, 0, 0, 128, 1, 2, 3], .turn, .user .copy, .returned, .turn] =
        some d ∧
      d.session.kept = [⟨some 1, 0, 5⟩] ∧ (d.session.frames.map fun f => (f.live, f.written)) = [(true, true)] :=
  ⟨_, rfl, by decide, by decide⟩

section

/-- The calls of the user between two steps of the thread. -/
theorem users_delivers {s : Receiver σ} (h : s.Roomy) (pos : RecvAt) (uops : List UserOp) :
    Machine.exec (Delivering.step V P) ⟨pos, s⟩ (uops.map .user) = some ⟨pos, s.users P uops⟩ ∧ (s.users P uops).Roomy := by
  induction uops generalizing s with
  | nil => exact ⟨rfl, h⟩
  | cons op uops ih =>
    obtain ⟨hrun, hroomy⟩ := ih (h.user op)
    refine ⟨?_, hroomy⟩
    have hstep : Delivering.step V P ⟨pos, s⟩ (.user op) = some ⟨pos, s.user P op⟩ := by
      simp only [Delivering.step, Delivering.user, h.fits op, Bool.false_eq_true, if_false]
    rw [List.map_cons, Machine.exec, hstep]
    exact hrun

theorem loop_delivers {fuel : Nat} {calls : List (List UserOp)} {s s' : Receiver σ} (h : s.Roomy)
    (hs : s.loop V P fuel calls = some s') :
    ∃ ops, Machine.exec (Delivering.step V P) ⟨.inLoop, s⟩ ops = some ⟨.rest, s'⟩ := by
  induction fuel generalizing calls s with
  | zero => cases hs
  | succ fuel ih =>
    have hturn : Delivering.step V P ⟨.inLoop, s⟩ .turn = some (Delivering.turn V P ⟨.inLoop, s⟩) := by
      rw [Delivering.step, if_pos rfl]
    have last : ∀ t, Delivering.turn V P ⟨.inLoop, s⟩ = ⟨.rest, t⟩ → t = s' →
        ∃ ops, Machine.exec (Delivering.step V P) ⟨.inLoop, s⟩ ops = some ⟨.rest, s'⟩ := by
      intro t ht he
      exact ⟨[.turn], by rw [Machine.exec, hturn, ht, he]; rfl⟩
    rw [Receiver.loop] at hs
    cases hg : V.getPacketSize s.window with
    | none =>
      rw [hg] at hs
      exact last _ (by simp only [Delivering.turn, hg]) (Option.some.inj hs)
    | some psize =>
      simp only [hg] at hs
      split at hs
      next hval => exact last _ (by simp only [Delivering.turn, hg, if_pos hval]) (Option.some.inj hs)
      next hval =>
        split at hs
        next hp =>
          obtain ⟨husers, hroomy⟩ := users_delivers (V := V) (P := P) (s := s.call psize) h (.inCall psize) (calls.headD [])
          obtain ⟨ops, hops⟩ := ih (s := s.deliver P psize (calls.headD [])) hroomy hs
          refine ⟨.turn :: ((calls.headD []).map .user ++ .returned :: ops), ?_⟩
          have hcall : Delivering.turn V P ⟨.inLoop, s⟩ = ⟨.inCall psize, s.call psize⟩ := by
            simp only [Delivering.turn, hg, if_neg hval, if_pos hp]
          rw [Machine.exec, hturn, hcall, Option.bind_some, Machine.exec_append, husers]
          exact hops
        next hp => exact last _ (by simp only [Delivering.turn, hg, if_neg hval, if_neg hp]) (Option.some.inj hs)

/-- A whole step of the session's life is a run of the thread. -/
theorem step_delivers {s s' : Receiver σ} {op : RecvOp} (h : s.Roomy) (hs : s.step V P op = some s') :
    ∃ ops, Machine.exec (Delivering.step V P) ⟨.rest, s⟩ ops = some ⟨.rest, s'⟩ := by
  cases op with
  | conn uops =>
    simp only [Receiver.step] at hs
    split at hs
    next => cases hs
    next hg =>
      obtain ⟨hm, hr⟩ := not_or.mp hg
      have hfirst : Delivering.step V P ⟨.rest, s⟩ .conn = some ⟨.inConn, s.initRBuf V P⟩ :=
        if_pos ⟨rfl, not_not.mp hm, Bool.eq_false_of_not_eq_true hr⟩
      obtain ⟨husers, _⟩ := users_delivers (V := V) (P := P) (s := s.initRBuf V P) h .inConn uops
      refine ⟨.conn :: (uops.map .user ++ [.connected]), ?_⟩
      rw [Machine.exec, hfirst, Option.bind_some, Machine.exec_append, husers]
      exact congrArg (fun t => some (Delivering.mk .rest t)) (Option.some.inj hs)
  | complete err data calls =>
    simp only [Receiver.step] at hs
    split at hs
    next => cases hs
    next hg =>
      obtain ⟨hr, hfit⟩ := not_or.mp hg
      have hfirst : Delivering.step V P ⟨.rest, s⟩ (.complete err data) =
          some (Delivering.complete ⟨.rest, s⟩ err data) := if_pos ⟨rfl, not_not.mp hr, Nat.le_of_not_lt hfit⟩
      have hnil : (err ≠ 0 ∨ data.length = 0) ↔ (err ≠ 0 ∨ data = []) := by rw [List.length_eq_zero_iff]
      simp only [Receiver.onRecv, hnil] at hs
      split at hs
      next hend =>
        refine ⟨[.complete err data], ?_⟩
        rw [Machine.exec, hfirst, Delivering.complete, if_pos hend, Option.some.inj hs]
        rfl
      next hgo =>
        have hroomy : (s.fill data).Roomy := by
          unfold Receiver.fill
          split
          next => exact h
          next => exact h
        obtain ⟨ops, hops⟩ := loop_delivers
          (s := { s.fill data with rbuf := (s.fill data).rbuf.moveTail data.length }) hroomy hs
        refine ⟨.complete err data :: ops, ?_⟩
        rw [Machine.exec, hfirst, Delivering.complete, if_neg hgo]
        exact hops
  | disc =>
    simp only [Receiver.step] at hs
    split at hs
    next => cases hs
    next hg =>
      refine ⟨[.disc], ?_⟩
      have hfirst : Delivering.step V P ⟨.rest, s⟩ .disc = some ⟨.rest, s.onDisc P⟩ := if_neg hg
      rw [Machine.exec, hfirst, Option.some.inj hs]
      rfl
  | user op =>
    refine ⟨[.user op], ?_⟩
    rw [← Option.some.inj hs]
    exact (users_delivers h .rest [op]).1

end

end Ven
