import Ven.ReceiverUser

namespace Ven

variable {σ : Type} {P : IMemPool σ} {C : PoolContract P}

open Receiver

/-- The invariant outside `on_recv`: everything below `head_` may still be held by the user. -/
structure Resting (C : PoolContract P) (s : Receiver σ) : Prop where
  inv : ReceiverInv C s.rbuf.head s
  cur : s.cur = Buf.null

theorem Receiver.user_cur {s : Receiver σ} (h : s.cur = Buf.null) (op : UserOp) :
    (s.user P op).cur = Buf.null := by
  cases op with
  | copy => exact h
  | disconnect =>
    simp only [Receiver.user, Receiver.disconnect]
    split <;> exact h
  | send a =>
    have hs : s.user P (.send a) = s := by
      simp only [Receiver.user]
      rw [if_pos (Or.inr (by rw [h]; rfl))]
    rw [hs]
    exact h
  | _ =>
    simp only [Receiver.user]
    (repeat' split) <;> exact h

theorem Resting.user {s : Receiver σ} (i : Resting C s) (op : UserOp) :
    Resting C (s.user P op) ∧ Beside s (s.user P op) := by
  obtain ⟨hi, hb⟩ := i.inv.user op
  refine ⟨⟨?_, user_cur i.cur op⟩, hb⟩
  rw [hb.rbuf]
  exact hi

theorem Resting.users {s : Receiver σ} (i : Resting C s) (ops : List UserOp) :
    Resting C (s.users P ops) ∧ Beside s (s.users P ops) := by
  induction ops generalizing s with
  | nil => exact ⟨i, Beside.refl C i.inv⟩
  | cons op ops ih =>
    obtain ⟨hi, hb⟩ := i.user op
    obtain ⟨hi', hb'⟩ := ih hi
    exact ⟨hi', hb.trans hb'⟩

theorem Receiver.length_window {s : Receiver σ} {id : Nat} {m : Mem} (ok : s.rbuf.Ok s.ram id m) :
    s.window.length = s.rbuf.dataLen := by
  rw [window, ok.loadAt, Bytes.length_readAt]

theorem Receiver.call_eq {s : Receiver σ} {id : Nat} (hm : s.rbuf.buf.mem = some id) (psize : Nat) :
    s.call psize = { s with
      ram := s.ram.addRef id
      cur := ⟨some id, s.rbuf.head, psize⟩
      frames := s.frames ++ [⟨id, s.rbuf.head, psize, s.ram.loadAt s.rbuf.buf s.rbuf.head psize, true, false⟩] } := by
  have hcopy : s.rbuf.copyBuf s.ram = (s.rbuf.buf, s.ram.addRef id) := by
    simp only [RBuf.copyBuf, Buf.copy, hm]
  simp only [call, hcopy, hm, Option.toList_some, List.map_cons, List.map_nil]

/-- During `on_recv` the bytes of the frame count as consumed. -/
theorem Resting.call {s : Receiver σ} (i : Resting C s) {id psize : Nat}
    (hm : s.rbuf.buf.mem = some id) (hp : psize ≤ s.rbuf.dataLen) :
    ReceiverInv C (s.rbuf.head + psize) (s.call psize) ∧
      SameBlock s.ram.heap (s.call psize).ram.heap id := by
  rw [call_eq hm]
  obtain ⟨hno, _, m, ok⟩ := i.inv.block id hm
  have hlen := ok.dataLen_eq
  have same : ∀ k ∈ s.holders, SameBlock s.ram.heap (s.ram.addRef id).heap k := by
    intro k hk
    obtain ⟨n, hn⟩ := C.live i.inv.pool hk
    exact SameBlock.addRef hn
  have hid := same id (mem_holders (rbuf_mine hm))
  have hmine : ∀ k ∈ s.mine, k ∈ s.rbuf.buf.held + ({id} + (heldBy s.kept +
      heldBy (s.sends.flatMap BufArray.items))) := by
    intro k hk
    rw [mine, heldBy_userBufs, i.cur, Buf.held_null, zero_add] at hk
    rcases Multiset.mem_add.mp hk with h | h
    · exact Multiset.mem_add.mpr (Or.inl h)
    · exact Multiset.mem_add.mpr (Or.inr (Multiset.mem_add.mpr (Or.inr h)))
  obtain ⟨m', ok', _, _⟩ := ok.of_same hid
  refine ⟨⟨?_, ?_, i.inv.default, ?_, ?_, ?_, ?_⟩, hid⟩
  · have hpool := C.addRef i.inv.pool (mem_holders (rbuf_mine hm))
    rw [holders, mine, heldBy_userBufs, i.cur, Buf.held_null, zero_add, ← Multiset.singleton_add] at hpool
    rw [holders, mine, heldBy_userBufs]
    change C.Inv _ (s.othersHeld + (s.rbuf.buf.held + ({id} + (heldBy s.kept +
      heldBy (s.sends.flatMap BufArray.items)))))
    have he : s.othersHeld + (s.rbuf.buf.held + ({id} + (heldBy s.kept +
        heldBy (s.sends.flatMap BufArray.items)))) = {id} + (s.othersHeld + (s.rbuf.buf.held +
        (heldBy s.kept + heldBy (s.sends.flatMap BufArray.items)))) := by abel
    rwa [he]
  · intro k hk
    cases Option.some.inj (hm.symm.trans hk)
    refine ⟨hno, ?_, m', ok'⟩
    change s.rbuf.head + psize ≤ s.rbuf.tail
    have := ok.head
    omega
  · intro f hf hl
    rcases List.mem_append.mp hf with hf | hf
    · have fo := i.inv.frames f hf hl
      refine ⟨?_, fo.alone, ?_, fun hb => Nat.le_add_right_of_le (fo.below hb)⟩
      · rw [mine, heldBy_userBufs]
        exact hmine _ fo.held
      · exact ((same f.mem (mem_holders fo.held)).load _ _).trans fo.data
    · cases List.mem_singleton.mp hf
      refine ⟨?_, hno, ?_, fun _ => Nat.le_refl _⟩
      · rw [mine, heldBy_userBufs]
        exact hmine _ (rbuf_mine hm)
      · change Heap.load _ id _ _ = s.ram.loadAt _ _ _
        rw [hid.load, Ram.loadAt, hm]
  · intro f hf
    rcases List.mem_append.mp hf with hf | hf
    · exact i.inv.clean f hf
    · cases List.mem_singleton.mp hf
      rfl
  · refine List.pairwise_append.mpr ⟨i.inv.apart, List.pairwise_singleton _ _, ?_⟩
    intro f hf g hg hfl _ he
    cases List.mem_singleton.mp hg
    exact (i.inv.frames f hf hfl).below (hm.trans (congrArg some he.symm))
  · intro b hb k hk
    rcases List.mem_cons.mp hb with rfl | hb
    · exact ⟨_, List.mem_append_right _ (List.mem_singleton.mpr rfl), rfl, rfl⟩
    · obtain ⟨f, hf, hl, he⟩ := i.inv.owned b (List.mem_cons_of_mem _ hb) k hk
      exact ⟨f, List.mem_append_left _ hf, hl, he⟩

theorem ReceiverInv.afterCall {s : Receiver σ} {psize : Nat}
    (i : ReceiverInv C (s.rbuf.head + psize) s) {id : Nat} (hm : s.rbuf.buf.mem = some id) :
    Resting C (s.afterCall P psize) ∧ SameBlock s.ram.heap (s.afterCall P psize).ram.heap id := by
  let moved : Receiver σ := { s with rbuf := s.rbuf.moveHead psize }
  let s' : Receiver σ := { moved with ram := Buf.destroy P s.ram s.cur, cur := Buf.null }
  have hmoved : ReceiverInv C (s.rbuf.head + psize) moved := by
    refine ⟨i.pool, ?_, i.default, ?_, i.clean, i.apart, i.owned⟩
    · intro k hk
      obtain ⟨hno, hlim, m, ok⟩ := i.block k hk
      exact ⟨hno, hlim, m, ok.mem, ok.live, ok.unit, hlim, ok.tail⟩
    · intro f hf hl
      have fo := i.frames f hf hl
      exact ⟨fo.held, fo.alone, fo.data, fo.below⟩
  have hold : s.holders = s.cur.held + (s.othersHeld + (s.rbuf.buf.held + (heldBy s.kept +
      heldBy (s.sends.flatMap BufArray.items)))) := by
    rw [holders, mine, heldBy_userBufs]
    abel
  have hheld : s'.holders = s.othersHeld + (s.rbuf.buf.held + (heldBy s.kept +
      heldBy (s.sends.flatMap BufArray.items))) := by
    rw [holders, mine, heldBy_userBufs]
    change s.othersHeld + (s.rbuf.buf.held + (Buf.null.held + _)) = _
    rw [Buf.held_null, zero_add]
  have hpool := i.pool
  rw [hold] at hpool
  obtain ⟨hinv, hsame⟩ := C.destroy_spec hpool
  refine ⟨⟨?_, rfl⟩, hsame id ?_⟩
  · have hinv' : C.Inv s'.ram s'.holders := by
      rw [hheld]
      exact hinv
    refine hmoved.settle rfl rfl hinv' ?_ (fun k _ hno => hno) ?_
    · exact fun k _ hk => hsame k (hheld ▸ mem_holders hk)
    · intro b hb hne
      rcases List.mem_cons.mp hb with rfl | hb
      · exact absurd rfl hne
      · exact List.mem_cons_of_mem _ hb
  · simp [Buf.held, hm]

theorem Resting.deliver {s : Receiver σ} (i : Resting C s) {id psize : Nat}
    (hm : s.rbuf.buf.mem = some id) (hp : psize ≤ s.rbuf.dataLen) (ops : List UserOp) :
    Resting C (s.deliver P psize ops) ∧ (s.deliver P psize ops).rbuf = s.rbuf.moveHead psize ∧
      (s.deliver P psize ops).rbuf.dataLen = s.rbuf.dataLen - psize ∧
      (s.deliver P psize ops).window = s.window.drop psize ∧
      (s.deliver P psize ops).frames.map Frame.data = s.frames.map Frame.data ++ [s.window.take psize] ∧
      (.disconnect ∉ ops → (s.deliver P psize ops).isConnected = s.isConnected ∧
        (s.deliver P psize ops).dovErr = s.dovErr) := by
  obtain ⟨hno, _, m, ok⟩ := i.inv.block id hm
  have hlen := ok.dataLen_eq
  obtain ⟨hcall, hsame₁⟩ := i.call hm hp
  obtain ⟨hback, hb⟩ := hcall.users (P := P) ops
  have hcr : (s.call psize).rbuf = s.rbuf := by rw [call_eq hm]
  have hbr : ((s.call psize).users P ops).rbuf = s.rbuf := hb.rbuf.trans hcr
  have hmback : ((s.call psize).users P ops).rbuf.buf.mem = some id := by rw [hbr]; exact hm
  rw [← hbr] at hback
  obtain ⟨hend, hsame₂⟩ := hback.afterCall hmback
  have hr : (s.deliver P psize ops).rbuf = s.rbuf.moveHead psize := by
    change RBuf.moveHead ((s.call psize).users P ops).rbuf psize = _
    rw [hbr]
  have block : SameBlock s.ram.heap (s.deliver P psize ops).ram.heap id :=
    hsame₁.trans ((hb.block id (by rw [hcr]; exact hm)).trans hsame₂)
  have hd : (s.deliver P psize ops).rbuf.dataLen = s.rbuf.dataLen - psize := by
    have hh := ok.head
    have ht := ok.tail
    have hu := ok.unit
    have : (s.rbuf.moveHead psize).dataLen = s.rbuf.tail - (s.rbuf.head + psize) :=
      u32_sub (by change s.rbuf.head + psize ≤ s.rbuf.tail; omega) (by change s.rbuf.tail < _; omega)
    rw [hr]
    omega
  refine ⟨hend, hr, hd, ?_, ?_, ?_⟩
  · rw [window, window, hd, hr]
    change Ram.loadAt _ s.rbuf.buf (s.rbuf.head + psize) _ = _
    rw [ok.loadAt, Bytes.drop_readAt _ _ hp, ← ok.loadAt]
    simp only [Ram.loadAt, hm]
    exact block.load _ _
  · have hdata : (s.deliver P psize ops).frames.map Frame.data =
        ((s.call psize).users P ops).frames.map Frame.data := expire_data _
    rw [hdata, hb.data, call_eq hm]
    simp only [List.map_append, List.map_cons, List.map_nil]
    rw [window, ok.loadAt, ok.loadAt, Bytes.take_readAt _ _ hp]
  · intro hq
    obtain ⟨hc, he⟩ := users_connected (P := P) (s := s.call psize) hq
    rw [call_eq hm] at hc he
    exact ⟨by rw [← hc, ← call_eq hm]; rfl, by rw [← he, ← call_eq hm]; rfl⟩

/-- Posting the window leaves everything else as it is. -/
theorem Resting.fill {s : Receiver σ} (i : Resting C s) {id : Nat} {data : List UInt8}
    (hm : s.rbuf.buf.mem = some id) (hfit : data.length ≤ s.rbuf.remainLen s.ram) :
    let s' : Receiver σ := { s.fill data with rbuf := (s.fill data).rbuf.moveTail data.length }
    Resting C s' ∧ s'.rbuf.buf.mem = some id ∧ s'.window = s.window ++ data ∧
      s'.frames.map Frame.data = s.frames.map Frame.data ∧ s'.isConnected = s.isConnected ∧
      s'.dovErr = s.dovErr := by
  intro s'
  obtain ⟨hno, _, m, ok⟩ := i.inv.block id hm
  have hlen := ok.dataLen_eq
  have hrem := ok.remainLen_eq
  have hh := ok.head
  have ht := ok.tail
  have hu := ok.unit
  let stored : Receiver σ := { s with ram := s.ram.store id s.rbuf.tail data }
  have hst : stored.ram.heap id = some { m with bytes := Bytes.writeAt m.bytes s.rbuf.tail data } :=
    Heap.store_self ok.live _ _
  have others : ∀ k ∈ s.holders, k ≠ id → SameBlock s.ram.heap stored.ram.heap k := by
    intro k hk hne
    obtain ⟨n, hn⟩ := C.live i.inv.pool hk
    exact SameBlock.of_eq hn (Heap.store_of_ne _ hne _ _)
  have below : ∀ f ∈ s.frames, f.live = true → id = f.mem → f.off + f.len ≤ s.rbuf.tail := by
    intro f hf hl he
    have := (i.inv.frames f hf hl).below (he ▸ hm)
    omega
  have hmark : stored.mark [⟨id, s.rbuf.tail, data.length⟩] = stored := by
    apply mark_eq
    intro f hf hl w hw
    cases List.mem_singleton.mp hw
    refine touches_other hst ?_ (fun he => Or.inl (below f hf hl he))
    change s.rbuf.tail + data.length ≤ m.unit
    omega
  have hfill : s.fill data = stored := by
    unfold Receiver.fill
    simp only [hm]
    exact hmark
  have hs' : s' = { stored with rbuf := s.rbuf.moveTail data.length } := by
    simp only [s', hfill]
    rfl
  rw [hs']
  refine ⟨⟨⟨C.store _ data i.inv.pool (mem_holders (rbuf_mine hm)), ?_, i.inv.default, ?_, i.inv.clean,
    i.inv.apart, i.inv.owned⟩, i.cur⟩, hm, ?_, rfl, rfl, rfl⟩
  · intro k hk
    cases Option.some.inj (hm.symm.trans hk)
    refine ⟨hno, ?_, _, hm, hst, hu, ?_, ?_⟩
    · change s.rbuf.head ≤ s.rbuf.tail + data.length
      omega
    · change s.rbuf.head ≤ s.rbuf.tail + data.length
      omega
    · change s.rbuf.tail + data.length ≤ m.unit
      omega
  · intro f hf hl
    have fo := i.inv.frames f hf hl
    refine ⟨fo.held, fo.alone, ?_, fo.below⟩
    by_cases he : f.mem = id
    · have hb := below f hf hl he.symm
      have hold : s.ram.heap.load f.mem f.off f.len = Bytes.readAt m.bytes f.off f.len := by
        simp only [Heap.load, he, ok.live]
      have hnew : stored.ram.heap.load f.mem f.off f.len =
          Bytes.readAt (Bytes.writeAt m.bytes s.rbuf.tail data) f.off f.len := by
        simp only [Heap.load, he, hst]
      exact hnew.trans ((Bytes.readAt_writeAt_disjoint (Or.inl hb)).trans (hold.symm.trans fo.data))
    · exact ((others f.mem (mem_holders fo.held) he).load _ _).trans fo.data
  · have hd : (s.rbuf.moveTail data.length).dataLen = s.rbuf.dataLen + data.length := by
      have : (s.rbuf.moveTail data.length).dataLen = s.rbuf.tail + data.length - s.rbuf.head :=
        u32_sub (by change s.rbuf.head ≤ s.rbuf.tail + data.length; omega)
          (by change s.rbuf.tail + data.length < _; omega)
      omega
    have hread : ({ stored with rbuf := s.rbuf.moveTail data.length } : Receiver σ).window =
        Bytes.readAt (Bytes.writeAt m.bytes s.rbuf.tail data) s.rbuf.head (s.rbuf.dataLen + data.length) := by
      rw [window, hd]
      change Ram.loadAt stored.ram s.rbuf.buf s.rbuf.head _ = _
      simp only [Ram.loadAt, hm, Heap.load, hst]
    have hend : s.rbuf.head + s.rbuf.dataLen = s.rbuf.tail := by omega
    rw [hread, Bytes.readAt_add, hend, Bytes.readAt_writeAt_same,
      Bytes.readAt_writeAt_disjoint (Or.inl (by omega)), window, ok.loadAt]

end Ven
