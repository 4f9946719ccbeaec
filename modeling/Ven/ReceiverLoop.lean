import Ven.ReceiverMoves
import Ven.FrameParse
import Ven.Machine

namespace Ven

variable {σ : Type} {P : IMemPool σ} {C : PoolContract P} {V : ISessionTCP}

open Receiver

/-- `check_size` and `check_arrange` keep the window, and touch no frame. -/
theorem Resting.rearrange {s : Receiver σ} (i : Resting C s) {res : RBuf × Ram σ × List Span}
    (a : RBuf.Arranged C s.rest s.rbuf s.ram res.1 res.2.1 res.2.2) :
    Resting C (s.rearrange res) ∧ (∃ id, (s.rearrange res).rbuf.buf.mem = some id) ∧
      (s.rearrange res).rbuf.dataLen = s.rbuf.dataLen ∧ (s.rearrange res).window = s.window ∧
      (s.rearrange res).frames.map Frame.data = s.frames.map Frame.data := by
  obtain ⟨id, m, ok, hcase, hw⟩ := a.ok
  let s' : Receiver σ := { s with rbuf := res.1, ram := res.2.1 }
  have hmark : s'.mark res.2.2 = s' := by
    apply mark_eq
    intro f hf hl w hmem
    obtain ⟨hid, hfresh, hfit⟩ := hw w hmem
    have hne : f.mem ≠ id := by
      intro he
      have := mem_holders (i.inv.frames f hf hl).held
      rw [holders_eq, he] at this
      exact hfresh this
    exact touches_other (hid ▸ ok.live) hfit (fun he => absurd (he.symm.trans hid) hne)
  have heq : s.rearrange res = s'.expire := by
    change (s'.mark res.2.2).expire = _
    rw [hmark]
  have hheld : s'.holders = res.1.buf.held + s.rest := holders_eq s'
  rw [heq]
  have hinv : C.Inv s'.ram s'.holders := by
    rw [hheld]
    exact a.inv
  refine ⟨⟨i.inv.expired rfl hinv ?_ (a.default ▸ i.inv.default) ?_
    (fun b hb _ => hb), i.cur⟩, ⟨id, ok.mem⟩, a.len, a.bytes, expire_data s'⟩
  · intro k hk
    cases Option.some.inj (ok.mem.symm.trans hk)
    refine ⟨fun hin => ?_, ok.head, m, ok⟩
    rcases hcase with ⟨hb, _⟩ | ⟨hfresh, _⟩
    · exact (i.inv.block id (hb ▸ ok.mem)).1 hin
    · exact hfresh (Multiset.mem_add.mpr (Or.inr (Multiset.mem_add.mpr (Or.inl hin))))
  · intro f hf hl hmem
    have fo := i.inv.frames f hf hl
    have hin : f.mem ∈ s'.mine := (Multiset.mem_add.mp hmem).resolve_left fo.alone
    have hold := mem_holders fo.held
    rw [holders_eq] at hold
    rcases hcase with ⟨hb, hr⟩ | ⟨hfresh, _⟩
    · refine ⟨hin, fo.alone, ?_, fun h => ?_⟩
      · change res.2.1.heap.load f.mem f.off f.len = f.data
        rw [hr]
        exact fo.data
      · change f.off + f.len ≤ res.1.head
        rw [hb]
        exact fo.below (hb ▸ h)
    · have hne : f.mem ≠ id := fun he => hfresh (he ▸ hold)
      have hrest : f.mem ∈ s.rest := by
        rw [hheld, ok.held_eq] at hmem
        exact (Multiset.mem_add.mp hmem).resolve_left fun h => hne (Multiset.mem_singleton.mp h)
      exact ⟨hin, fo.alone, ((a.same f.mem hrest).load _ _).trans fo.data,
        fun h => absurd (Option.some.inj (ok.mem.symm.trans h)).symm hne⟩

/-- What a completion leaves: the frames found in the window, and the rest of the window. -/
structure Received (s s' : Receiver σ) (calls : List (List UserOp)) (p : Parse) : Prop where
  data : s'.frames.map Frame.data = s.frames.map Frame.data ++ p.frames
  window : s'.window = p.rest
  block : ∃ id, s'.rbuf.buf.mem = some id
  quiet : (∀ ops ∈ calls, .disconnect ∉ ops) → s.isConnected = true →
    if p.bad then s'.isConnected = false ∧ s'.isReceiving = false ∧ s'.dovErr = 16000
    else s'.isConnected = true ∧ s'.isReceiving = true ∧ s'.dovErr = s.dovErr

theorem Resting.flags {s : Receiver σ} (i : Resting C s) (connected receiving : Bool) (err : Nat) :
    Resting C { s with isConnected := connected, isReceiving := receiving, dovErr := err } :=
  ⟨i.inv.flags connected receiving err, i.cur⟩

theorem Resting.disconnect {s : Receiver σ} (i : Resting C s) (err : Nat) : Resting C (s.disconnect err) := by
  unfold Receiver.disconnect
  split
  next => exact i.flags false s.isReceiving err
  next => exact i

theorem Resting.finish (hu : C.Units32) {s : Receiver σ} (i : Resting C s) {id : Nat}
    (hm : s.rbuf.buf.mem = some id) (calls : List (List UserOp)) :
    Resting C (s.finish P) ∧ Received s (s.finish P) calls ⟨[], s.window, false⟩ := by
  obtain ⟨_, _, m, ok⟩ := i.inv.block id hm
  have hpool : C.Inv s.ram (s.rbuf.buf.held + s.rest) := by
    rw [← holders_eq]
    exact i.inv.pool
  obtain ⟨hi, hb, hd, hw, hf⟩ :=
    i.rearrange (RBuf.checkArrange_spec C hu ok hpool i.inv.default)
  have hconn : (s.checkArrange P).isConnected = s.isConnected := rfl
  have herr : (s.checkArrange P).dovErr = s.dovErr := rfl
  unfold Receiver.finish
  dsimp only
  split
  next hc =>
    have he : ({ s.checkArrange P with isReceiving := false } : Receiver σ).recv =
        { s.checkArrange P with isReceiving := true } := by
      unfold recv
      rw [if_pos hc]
    rw [he]
    refine ⟨hi.flags _ true _, by rw [List.append_nil]; exact hf, hw, hb, fun _ _ => ?_⟩
    rw [if_neg (by simp)]
    exact ⟨hc, rfl, rfl⟩
  next hc =>
    have he : ({ s.checkArrange P with isReceiving := false } : Receiver σ).disconnect 0 =
        { s.checkArrange P with isReceiving := false } := by
      unfold Receiver.disconnect
      rw [if_neg hc]
    rw [he]
    refine ⟨hi.flags _ false _, by rw [List.append_nil]; exact hf, hw, hb, fun _ hs => ?_⟩
    exact absurd (hconn.trans hs) hc

/-- What the virtual functions must give: a frame is not empty and twice its size is a
`uint32_t`. -/
def ISessionTCP.Sound (V : ISessionTCP) : Prop :=
  ∀ n, V.isValidPacketSize n = true → 0 < n ∧ n * 2 < 4294967296

/-- The loop of `_on_recv` ends, and delivers exactly the frames in the window. -/
theorem Resting.loop (hu : C.Units32) (hv : V.Sound) {fuel : Nat} (calls : List (List UserOp))
    {s : Receiver σ} (i : Resting C s) {id : Nat} (hm : s.rbuf.buf.mem = some id)
    (hfuel : s.rbuf.dataLen < fuel) :
    ∃ s' p, s.loop V P fuel calls = some s' ∧ Framed V s.window p ∧ Resting C s' ∧
      Received s s' calls p := by
  induction fuel generalizing s calls id with
  | zero => omega
  | succ fuel ih =>
    obtain ⟨_, _, m, ok⟩ := i.inv.block id hm
    have hlen := length_window ok
    cases hg : V.getPacketSize s.window with
    | none =>
      obtain ⟨hi, hr⟩ := i.finish hu hm calls
      exact ⟨_, _, by rw [Receiver.loop, hg], .short hg, hi, hr⟩
    | some psize =>
      by_cases hval : V.isValidPacketSize psize = true
      · obtain ⟨hpos, hdouble⟩ := hv psize hval
        by_cases hp : psize ≤ s.rbuf.dataLen
        · obtain ⟨hi, hrb, hd, hw, hdata, hq⟩ := i.deliver hm hp (calls.headD [])
          have hm' : (s.deliver P psize (calls.headD [])).rbuf.buf.mem = some id := by
            rw [hrb]
            exact hm
          obtain ⟨s', p, hrun, hframed, hi', hr⟩ := ih calls.tail hi hm' (by omega)
          refine ⟨s', { p with frames := s.window.take psize :: p.frames }, ?_, ?_, hi', ?_⟩
          · rw [Receiver.loop, hg]
            simp only [hval, not_true_eq_false, if_false, hp, if_true]
            exact hrun
          · rw [hw] at hframed
            exact .frame hg hval (by omega) hframed
          · refine ⟨?_, hr.window, hr.block, fun hquiet hs => ?_⟩
            · rw [hr.data, hdata, List.append_assoc]
              rfl
            · have hhead : .disconnect ∉ calls.headD [] := by
                cases calls with
                | nil => simp
                | cons ops calls => exact hquiet ops List.mem_cons_self
              obtain ⟨hc, he⟩ := hq hhead
              have := hr.quiet (fun ops ho => hquiet ops (List.mem_of_mem_tail ho)) (hc.trans hs)
              rwa [he] at this
        · have hpool : C.Inv s.ram (s.rbuf.buf.held + s.rest) := by
            rw [← holders_eq]
            exact i.inv.pool
          obtain ⟨hi, ⟨id', hb⟩, _, hw, hf⟩ :=
            i.rearrange (RBuf.checkSize_spec C hu ok hpool (by omega) hdouble)
          obtain ⟨hi', hr⟩ := hi.finish hu hb calls
          refine ⟨((s.checkSize P psize).finish P), ⟨[], s.window, false⟩, ?_,
            .partly hg hval (by omega), hi', ?_⟩
          · rw [Receiver.loop, hg]
            simp only [hval, not_true_eq_false, if_false, hp]
          · refine ⟨?_, hr.window.trans hw, hr.block, fun hquiet hs => ?_⟩
            · rw [List.append_nil]
              exact (hr.data.trans (List.append_nil _)).trans hf
            · exact hr.quiet hquiet hs
      · refine ⟨({ s with isReceiving := false } : Receiver σ).disconnect 16000, ⟨[], s.window, true⟩, ?_,
          .refused hg hval, (i.flags _ false _).disconnect 16000, ?_⟩
        · rw [Receiver.loop, hg]
          simp only [hval]
          rfl
        · have hsame : ∀ t : Receiver σ, (t.disconnect 16000).frames = t.frames ∧
              (t.disconnect 16000).window = t.window ∧ (t.disconnect 16000).rbuf = t.rbuf := by
            intro t
            unfold Receiver.disconnect
            split <;> exact ⟨rfl, rfl, rfl⟩
          obtain ⟨hf, hw, hr⟩ := hsame { s with isReceiving := false }
          refine ⟨by rw [hf, List.append_nil], hw, ⟨id, by rw [hr]; exact hm⟩, fun _ hs => ?_⟩
          simp [Receiver.disconnect, hs]

end Ven
