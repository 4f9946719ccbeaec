import Ven.ReceiverLoop

namespace Ven

variable {σ : Type} {P : IMemPool σ} {C : PoolContract P} {V : ISessionTCP}

open Receiver

/-- The invariant of the runs: a posted receive has a block to go to. -/
structure SessionInv (C : PoolContract P) (s : Receiver σ) : Prop where
  rest : Resting C s
  posted : s.isReceiving = true → ∃ id, s.rbuf.buf.mem = some id

theorem SessionInv.user {s : Receiver σ} (i : SessionInv C s) (op : UserOp) :
    SessionInv C (s.user P op) ∧ Beside s (s.user P op) := by
  obtain ⟨hi, hb⟩ := i.rest.user op
  refine ⟨⟨hi, fun hr => ?_⟩, hb⟩
  rw [hb.rbuf]
  exact i.posted (hb.receiving ▸ hr)

/-- A completion within the posted window always runs to its end. -/
theorem SessionInv.complete (hu : C.Units32) (hv : V.Sound) {s : Receiver σ} (i : SessionInv C s)
    (hr : s.isReceiving = true) {data : List UInt8} (hfit : data.length ≤ s.rbuf.remainLen s.ram)
    (hne : data ≠ []) (calls : List (List UserOp)) :
    ∃ s' p, s.step V P (.complete 0 data calls) = some s' ∧ Framed V (s.window ++ data) p ∧
      SessionInv C s' ∧ Received s s' calls p := by
  obtain ⟨id, hm⟩ := i.posted hr
  obtain ⟨hi, hm', hw, hf, hc, he⟩ := i.rest.fill hm hfit
  obtain ⟨s', p, hrun, hframed, hi', hrec⟩ := Resting.loop hu hv calls hi hm' (Nat.lt_succ_self _)
  have hlen : data.length ≠ 0 := fun h => hne (List.eq_nil_of_length_eq_zero h)
  refine ⟨s', p, ?_, hw ▸ hframed, ⟨hi', fun _ => hrec.block⟩, ?_⟩
  · have hguard : ¬(¬s.isReceiving = true ∨ s.rbuf.remainLen s.ram < data.length) := by
      rw [not_or, not_not]
      exact ⟨hr, by omega⟩
    rw [Receiver.step, if_neg hguard, Receiver.onRecv, if_neg (by simp [hlen])]
    exact hrun
  · refine ⟨hf ▸ hrec.data, hrec.window, hrec.block, fun hq hs => ?_⟩
    have hquiet := hrec.quiet hq (hc.trans hs)
    rwa [he] at hquiet

theorem SessionInv.failed {s : Receiver σ} (i : SessionInv C s) (hr : s.isReceiving = true)
    {data : List UInt8} (hfit : data.length ≤ s.rbuf.remainLen s.ram) (err : Nat) :
    SessionInv C (({ s.fill data with isReceiving := false } : Receiver σ).disconnect err) := by
  obtain ⟨id, hm⟩ := i.posted hr
  obtain ⟨hi, _⟩ := i.rest.fill hm hfit
  have hfill : Resting C (s.fill data) := by
    obtain ⟨hno, _, m, ok⟩ := i.rest.inv.block id hm
    have hh := ok.head
    have hd : ({ s.fill data with rbuf := (s.fill data).rbuf.moveTail data.length } : Receiver σ).rbuf.head =
        s.rbuf.head ∧ (s.fill data).rbuf = s.rbuf := by
      unfold Receiver.fill
      simp only [hm]
      exact ⟨rfl, rfl⟩
    refine ⟨⟨hi.inv.pool, ?_, hi.inv.default, ?_, hi.inv.clean, hi.inv.apart, hi.inv.owned⟩, hi.cur⟩
    · intro k hk
      obtain ⟨hno', _, n, ok'⟩ := hi.inv.block k hk
      have hmem : (s.fill data).rbuf.buf.mem = some k := hk
      rw [hd.2] at hmem
      cases Option.some.inj (hm.symm.trans hmem)
      have hunit : n.unit = m.unit := by
        have hst : (s.fill data).ram.heap id = some { m with bytes := Bytes.writeAt m.bytes s.rbuf.tail data } := by
          unfold Receiver.fill
          simp only [hm]
          exact Heap.store_self ok.live _ _
        rw [Option.some.inj (ok'.live.symm.trans hst)]
      rw [hd.2]
      have ht := ok.tail
      exact ⟨hno', hh, n, ok.mem, ok'.live, ok'.unit, hh, by omega⟩
    · intro f hf hl
      have fo := hi.inv.frames f hf hl
      exact ⟨fo.held, fo.alone, fo.data, fo.below⟩
  refine ⟨(hfill.flags _ false _).disconnect err, fun h => ?_⟩
  unfold Receiver.disconnect at h
  split at h <;> cases h

/-- `_on_conn_init` before `on_conn`: a new block, with nothing in it. -/
theorem SessionInv.init (hu : C.Units32) (hsize : V.receiveBufferSize < 4294967296) {s : Receiver σ}
    (i : SessionInv C s) (hm : s.rbuf.buf.mem = none) :
    let s₁ : Receiver σ := { s with
      ram := (s.rbuf.init P s.ram V.receiveBufferSize V.headerSize).2
      rbuf := (s.rbuf.init P s.ram V.receiveBufferSize V.headerSize).1
      isConnected := true
      isReceiving := false }
    Resting C s₁ ∧ ∃ id m, s₁.rbuf.Ok s₁.ram id m ∧ m.unit = (P.get s.ram V.receiveBufferSize).1.len ∧
      V.receiveBufferSize ≤ m.unit ∧ s₁.rbuf.head = 0 ∧ s₁.rbuf.tail = 0 := by
  intro s₁
  have hpool : C.Inv s.ram s.rest := by
    have := i.rest.inv.pool
    rw [holders_eq] at this
    simpa [Buf.held, hm] using this
  obtain ⟨id, m, ok, hunit, hfit, hfresh, hhead, htail, hinv, hsame⟩ :=
    RBuf.init_spec C hu (b := s.rbuf) V.headerSize hm hpool hsize
  have hmine : ∀ f ∈ s.frames, f.live = true → f.mem ∈ s.rest := by
    intro f hf hl
    have := mem_holders (i.rest.inv.frames f hf hl).held
    rw [holders_eq] at this
    simpa [Buf.held, hm] using this
  refine ⟨⟨⟨?_, ?_, hsize, ?_, i.rest.inv.clean, i.rest.inv.apart, i.rest.inv.owned⟩, i.rest.cur⟩,
    id, m, ok, hunit, hfit, hhead, htail⟩
  · rw [holders_eq]
    exact hinv
  · intro k hk
    cases Option.some.inj (ok.mem.symm.trans hk)
    exact ⟨fun hin => hfresh (Multiset.mem_add.mpr (Or.inl hin)), ok.head, m, ok⟩
  · intro f hf hl
    have fo := i.rest.inv.frames f hf hl
    have hin := hmine f hf hl
    refine ⟨mine_of_rest (s := s₁) fo.alone hin, fo.alone, ((hsame f.mem hin).load _ _).trans fo.data, ?_⟩
    intro hb
    exact absurd (Option.some.inj (ok.mem.symm.trans hb) ▸ hin) hfresh

theorem SessionInv.conn (hu : C.Units32) (hsize : V.receiveBufferSize < 4294967296) {s : Receiver σ}
    (i : SessionInv C s) (hm : s.rbuf.buf.mem = none) (ops : List UserOp) :
    SessionInv C (s.onConnInit V P ops) ∧ (s.onConnInit V P ops).window = [] ∧
      (s.onConnInit V P ops).frames.map Frame.data = s.frames.map Frame.data ∧
      (.disconnect ∉ ops → (s.onConnInit V P ops).isConnected = true ∧
        (s.onConnInit V P ops).isReceiving = true) := by
  let s₁ : Receiver σ := { s with
    ram := (s.rbuf.init P s.ram V.receiveBufferSize V.headerSize).2
    rbuf := (s.rbuf.init P s.ram V.receiveBufferSize V.headerSize).1
    isConnected := true
    isReceiving := false }
  obtain ⟨hi, id, m, ok, _, _, hhead, htail⟩ := i.init (P := P) hu hsize hm
  have hdata : s₁.rbuf.dataLen = 0 := by
    rw [RBuf.dataLen, hhead, htail]
    rfl
  obtain ⟨hi', hb⟩ := hi.users (P := P) ops
  have hwin : (s₁.users P ops).window = [] := by
    rw [hb.window]
    have := length_window (s := s₁) ok
    exact List.eq_nil_of_length_eq_zero (this.trans hdata)
  have he : s.onConnInit V P ops = (s₁.users P ops).recv := rfl
  have hrecv : ∀ t : Receiver σ, t.recv.window = t.window ∧ t.recv.frames = t.frames ∧ t.recv.rbuf = t.rbuf := by
    intro t
    unfold Receiver.recv
    split <;> exact ⟨rfl, rfl, rfl⟩
  obtain ⟨hw, hf, hr⟩ := hrecv (s₁.users P ops)
  rw [he]
  refine ⟨⟨?_, fun _ => ?_⟩, hw.trans hwin, by rw [hf]; exact hb.data, fun hq => ?_⟩
  · unfold Receiver.recv
    split
    next => exact hi'.flags _ true _
    next => exact hi'
  · rw [hr, hb.rbuf]
    exact ⟨id, ok.mem⟩
  · have hc : (s₁.users P ops).isConnected = true := (users_connected hq).1
    unfold Receiver.recv
    rw [if_pos hc]
    exact ⟨hc, rfl⟩

theorem SessionInv.disc {s : Receiver σ} (i : SessionInv C s) (hr : s.isReceiving = false) :
    SessionInv C (s.onDisc P) := by
  have hpool := i.rest.inv.pool
  rw [holders_eq] at hpool
  obtain ⟨hbuf, hinv, hsame⟩ := RBuf.uninit_spec C hpool
  let s₁ : Receiver σ := { s with ram := (s.rbuf.uninit P s.ram).2, rbuf := (s.rbuf.uninit P s.ram).1 }
  have hheld : s₁.holders = s.rest := by
    rw [holders_eq]
    change (s.rbuf.uninit P s.ram).1.buf.held + s.rest = s.rest
    rw [hbuf, Buf.held_null, zero_add]
  have hnone : s₁.rbuf.buf.mem = none := by
    change (s.rbuf.uninit P s.ram).1.buf.mem = none
    rw [hbuf]
    rfl
  have he : s.onDisc P = s₁.expire := rfl
  rw [he]
  have hinv' : C.Inv s₁.ram s₁.holders := by
    rw [hheld]
    exact hinv
  refine ⟨⟨i.rest.inv.expired rfl hinv' ?_ i.rest.inv.default ?_
    (fun b hb _ => hb), i.rest.cur⟩, fun h => absurd (hr.symm.trans h) (by simp)⟩
  · intro k hk
    exact absurd (hnone.symm.trans hk) (by simp)
  · intro f hf hl hmem
    have fo := i.rest.inv.frames f hf hl
    have hin : f.mem ∈ s.rest := hheld ▸ hmem
    refine ⟨mine_of_rest (s := s₁) fo.alone hin, fo.alone, ((hsame f.mem hin).load _ _).trans fo.data, ?_⟩
    intro hb
    exact absurd (hnone.symm.trans hb) (by simp)

/-- One step of a session's life keeps the invariant. -/
theorem SessionInv.step (hu : C.Units32) (hv : V.Sound) (hsize : V.receiveBufferSize < 4294967296)
    {s s' : Receiver σ} {op : RecvOp} (i : SessionInv C s) (hs : s.step V P op = some s') :
    SessionInv C s' := by
  cases op with
  | conn ops =>
    simp only [Receiver.step] at hs
    split at hs
    next => cases hs
    next hg =>
      cases Option.some.inj hs
      exact (i.conn hu hsize (by_contra fun h => hg (Or.inl h)) ops).1
  | complete err data calls =>
    have hs' := hs
    simp only [Receiver.step] at hs
    split at hs
    next => cases hs
    next hg =>
      obtain ⟨hr, hfit⟩ := not_or.mp hg
      rw [not_not] at hr
      simp only [Receiver.onRecv] at hs
      split at hs
      next =>
        cases Option.some.inj hs
        exact i.failed hr (by omega) err
      next hok =>
        obtain ⟨herr, hlen⟩ := not_or.mp hok
        have herr' : err = 0 := by omega
        subst herr'
        have hne : data ≠ [] := fun h => hlen (by rw [h]; rfl)
        obtain ⟨t, _, ht, _, hi, _⟩ := i.complete hu hv hr (by omega) hne calls
        cases Option.some.inj (hs'.symm.trans ht)
        exact hi
  | disc =>
    simp only [Receiver.step] at hs
    split at hs
    next => cases hs
    next hg =>
      cases Option.some.inj hs
      obtain ⟨_, hr⟩ := not_or.mp hg
      exact i.disc (by simpa using hr)
  | user op =>
    cases Option.some.inj hs
    exact (i.user op).1

end Ven
