import Ven.ZeroCopy

namespace Ven

variable {σ : Type} {P : IMemPool σ} {C : PoolContract P} {V : ISessionTCP}

namespace Receiver

/-- The turn of the loop of `_on_recv` in which no further frame is complete. -/
def lastTurn (V : ISessionTCP) (P : IMemPool σ) (s : Receiver σ) : Receiver σ :=
  match V.getPacketSize s.window with
  | none => s.finish P
  | some psize =>
    if V.isValidPacketSize psize then (s.checkSize P psize).finish P
    else { s with isReceiving := false }.disconnect 16000

/-- The calls of `check_size` and `check_arrange` in that turn: where each starts, and its result. -/
def lastArranges (V : ISessionTCP) (P : IMemPool σ) (s : Receiver σ) :
    List (Receiver σ × RBuf × Ram σ × List Span) :=
  match V.getPacketSize s.window with
  | none => [(s, s.rbuf.checkArrange P s.ram)]
  | some psize =>
    if V.isValidPacketSize psize then
      let s' := s.checkSize P psize
      [(s, s.rbuf.checkSize P s.ram psize), (s', s'.rbuf.checkArrange P s'.ram)]
    else []

/-- The calls of `check_size` and `check_arrange` that the loop makes. -/
def loopArranges (V : ISessionTCP) (P : IMemPool σ) :
    Nat → List (List UserOp) → Receiver σ → List (Receiver σ × RBuf × Ram σ × List Span)
  | 0, _, _ => []
  | fuel + 1, calls, s =>
    match V.getPacketSize s.window with
    | none => s.lastArranges V P
    | some psize =>
      if V.isValidPacketSize psize ∧ psize ≤ s.rbuf.dataLen then
        loopArranges V P fuel calls.tail (s.deliver P psize (calls.headD []))
      else s.lastArranges V P

/-- The same for one step of a session's life. -/
def arranges (V : ISessionTCP) (P : IMemPool σ) (s : Receiver σ) :
    RecvOp → List (Receiver σ × RBuf × Ram σ × List Span)
  | .complete err data calls =>
    if err ≠ 0 ∨ data = [] then []
    else
      let s' := s.fill data
      let s' := { s' with rbuf := s'.rbuf.moveTail data.length }
      s'.loopArranges V P (s'.rbuf.dataLen + 1) calls
  | _ => []

end Receiver

open Receiver

/-- The bytes recorded of every frame are as many as the `Buf` passed to `on_recv` has. -/
def Receiver.Whole (s : Receiver σ) : Prop := ∀ f ∈ s.frames, f.data.length = f.len

theorem Receiver.Whole.expire {s : Receiver σ} (h : s.Whole) : s.expire.Whole := by
  intro f hf
  obtain ⟨g, hg, rfl⟩ := mem_expire hf
  exact h g hg

theorem Receiver.Whole.mark {s : Receiver σ} (h : s.Whole) (wrote : List Span) : (s.mark wrote).Whole := by
  intro f hf
  obtain ⟨g, hg, rfl⟩ := List.mem_map.mp hf
  exact h g hg

theorem Receiver.Whole.user {s : Receiver σ} (h : s.Whole) (op : UserOp) : (s.user P op).Whole := by
  cases op with
  | copy => exact h
  | dropKept i =>
    simp only [Receiver.user]
    split
    next => exact h
    next => exact Whole.expire h
  | clear a =>
    simp only [Receiver.user]
    split
    next => exact h
    next => exact Whole.expire h
  | other op =>
    simp only [Receiver.user]
    split
    next => exact h
    next => exact Whole.expire h
  | write i pos data =>
    simp only [Receiver.user]
    split
    next => exact h
    next =>
      split
      next => exact h
      next =>
        refine Whole.mark ?_ _
        exact h
  | disconnect =>
    simp only [Receiver.user, Receiver.disconnect]
    split
    next => exact h
    next => exact h
  | _ =>
    simp only [Receiver.user]
    (repeat' split) <;> exact h

theorem Receiver.Whole.users {s : Receiver σ} (h : s.Whole) (ops : List UserOp) : (s.users P ops).Whole := by
  induction ops generalizing s with
  | nil => exact h
  | cons op ops ih => exact ih (h.user op)

theorem Receiver.Whole.deliver {s : Receiver σ} (h : s.Whole) {id : Nat} {m : Mem} (ok : s.rbuf.Ok s.ram id m)
    (psize : Nat) (ops : List UserOp) : (s.deliver P psize ops).Whole := by
  have hcall : (s.call psize).Whole := by
    rw [call_eq ok.mem]
    intro f hf
    rcases List.mem_append.mp hf with hf | hf
    · exact h f hf
    · cases List.mem_singleton.mp hf
      simp only [ok.loadAt, Bytes.length_readAt]
  exact Whole.expire (hcall.users ops)

theorem Receiver.Whole.lastTurn {s : Receiver σ} (h : s.Whole) : (s.lastTurn V P).Whole := by
  have hdisc : ∀ (t : Receiver σ) err, t.Whole → (t.disconnect err).Whole := by
    intro t err ht
    unfold Receiver.disconnect
    split
    next => exact ht
    next => exact ht
  have harr : ∀ (t : Receiver σ) res, t.Whole → (t.rearrange res).Whole := by
    intro t res ht
    refine Whole.expire (Whole.mark ?_ _)
    exact ht
  have hfin : ∀ t : Receiver σ, t.Whole → (t.finish P).Whole := by
    intro t ht
    unfold Receiver.finish recv
    dsimp only
    split
    next => exact harr t _ ht
    next => exact hdisc _ 0 (harr t _ ht)
  unfold Receiver.lastTurn
  split
  next => exact hfin s h
  next =>
    split
    next => exact hfin _ (harr s _ h)
    next => exact hdisc _ _ h

/-- Where the loop stands in its last turn, at `t`: it has delivered what was complete of the window `w`. -/
structure Receiver.LastAt (C : PoolContract P) (V : ISessionTCP) (s : Receiver σ) (w : List UInt8)
    (t : Receiver σ) : Prop where
  rest : Resting C t
  buf : t.rbuf.buf = s.rbuf.buf
  default : t.rbuf.defaultSize = s.rbuf.defaultSize
  remaining : t.rbuf.remainingSizeToExchange = s.rbuf.remainingSizeToExchange
  unit : t.ram.unitAt t.rbuf.buf = s.ram.unitAt s.rbuf.buf
  part : ∀ psize, V.getPacketSize t.window = some psize → V.isValidPacketSize psize = true → t.rbuf.dataLen < psize
  cut : ∃ p, Framed V w p ∧ p.rest = t.window ∧
    t.frames.map Frame.data = s.frames.map Frame.data ++ p.frames
  whole : s.Whole → t.Whole

theorem SameBlock.unitAt {r r' : Ram σ} {b : Buf} {id : Nat} (hb : b.mem = some id)
    (same : SameBlock r.heap r'.heap id) : r'.unitAt b = r.unitAt b := by
  obtain ⟨m, m', hm, hm', hunit, _⟩ := same
  simp [Ram.unitAt, hb, hm, hm', hunit]

theorem Resting.deliver_unit {s : Receiver σ} (i : Resting C s) {id psize : Nat}
    (hm : s.rbuf.buf.mem = some id) (hp : psize ≤ s.rbuf.dataLen) (ops : List UserOp) :
    (s.deliver P psize ops).ram.unitAt s.rbuf.buf = s.ram.unitAt s.rbuf.buf := by
  obtain ⟨hcall, hsame⟩ := i.call hm hp
  obtain ⟨hback, hb⟩ := hcall.users (P := P) ops
  have hcr : (s.call psize).rbuf = s.rbuf := by rw [call_eq hm]
  have hbr : ((s.call psize).users P ops).rbuf = s.rbuf := hb.rbuf.trans hcr
  rw [← hbr] at hback
  obtain ⟨_, hend⟩ := hback.afterCall (P := P) (by rw [hbr]; exact hm)
  have hall := hsame.trans ((hb.block id (by rw [hcr]; exact hm)).trans hend)
  exact hall.unitAt hm

theorem framed_last {w : List UInt8} {len : Nat} (hlen : w.length = len)
    (h : ∀ psize, V.getPacketSize w = some psize → V.isValidPacketSize psize = true → len < psize) :
    ∃ p, Framed V w p ∧ p.rest = w ∧ p.frames = [] := by
  cases hg : V.getPacketSize w with
  | none => exact ⟨_, .short hg, rfl, rfl⟩
  | some psize =>
    by_cases hval : V.isValidPacketSize psize = true
    · have hpart := h psize hg hval
      exact ⟨_, .partly hg hval (by omega), rfl, rfl⟩
    · exact ⟨_, .refused hg hval, rfl, rfl⟩

/-- The loop delivers what is complete and ends with its last turn. -/
theorem Resting.loop_last (hv : V.Sound) {fuel : Nat} (calls : List (List UserOp)) {s : Receiver σ}
    (i : Resting C s) {id : Nat} (hm : s.rbuf.buf.mem = some id) (hfuel : s.rbuf.dataLen < fuel) :
    ∃ t, LastAt C V s s.window t ∧ s.loop V P fuel calls = some (t.lastTurn V P) ∧
      s.loopArranges V P fuel calls = t.lastArranges V P := by
  induction fuel generalizing s calls id with
  | zero => omega
  | succ fuel ih =>
    obtain ⟨_, _, m, ok⟩ := i.inv.block id hm
    have ends : (∀ psize, V.getPacketSize s.window = some psize → V.isValidPacketSize psize = true →
          s.rbuf.dataLen < psize) →
        s.loop V P (fuel + 1) calls = some (s.lastTurn V P) ∧
          s.loopArranges V P (fuel + 1) calls = s.lastArranges V P := by
      intro hpart
      cases hg : V.getPacketSize s.window with
      | none => exact ⟨by rw [Receiver.loop, lastTurn, hg], by rw [loopArranges, hg]⟩
      | some psize =>
        refine ⟨?_, ?_⟩
        · rw [Receiver.loop, lastTurn, hg]
          by_cases hval : V.isValidPacketSize psize = true
          · have hlt := hpart psize hg hval
            simp only [hval, not_true_eq_false, if_false, if_true, if_neg (Nat.not_le_of_lt hlt)]
          · simp only [hval]
            rfl
        · rw [loopArranges, hg]
          refine if_neg fun hc => ?_
          have hlt := hpart psize hg hc.1
          omega
    by_cases hpart : ∀ psize, V.getPacketSize s.window = some psize → V.isValidPacketSize psize = true →
        s.rbuf.dataLen < psize
    · obtain ⟨p, hp, hrest, hnone⟩ := framed_last (length_window ok) hpart
      refine ⟨s, ⟨i, rfl, rfl, rfl, rfl, hpart, ⟨p, hp, hrest, ?_⟩, fun h => h⟩, ends hpart⟩
      rw [hnone, List.append_nil]
    · push Not at hpart
      obtain ⟨psize, hg, hval, hp⟩ := hpart
      obtain ⟨hpos, _⟩ := hv psize hval
      obtain ⟨hi, hrb, hd, hw, hdata, _⟩ := i.deliver hm hp (calls.headD [])
      have hm' : (s.deliver P psize (calls.headD [])).rbuf.buf.mem = some id := by
        rw [hrb]
        exact hm
      obtain ⟨t, ht, hrun, harr⟩ := ih calls.tail hi hm' (by omega)
      obtain ⟨p, hframed, hrest, hframes⟩ := ht.cut
      rw [hw] at hframed
      have hlen := length_window ok
      have hfirst := Framed.frame hg hval (by omega) hframed
      refine ⟨t, ⟨ht.rest, ?_, ?_, ?_, ?_, ht.part, ⟨_, hfirst, hrest, ?_⟩, fun h => ht.whole (h.deliver ok psize _)⟩,
        ?_, ?_⟩
      · rw [ht.buf, hrb]
        rfl
      · rw [ht.default, hrb]
        rfl
      · rw [ht.remaining, hrb]
        rfl
      · rw [ht.unit, hrb]
        exact i.deliver_unit hm hp _
      · rw [hframes, hdata, List.append_assoc]
        rfl
      · rw [Receiver.loop, hg]
        simp only [hval, not_true_eq_false, if_false, hp, if_true]
        exact hrun
      · rw [loopArranges, hg]
        simp only [hval, hp, and_self, if_true]
        exact harr

theorem Receiver.disconnect_leaves (s : Receiver σ) (err : Nat) : (s.disconnect err).rbuf = s.rbuf ∧
    (s.disconnect err).ram = s.ram ∧ (s.disconnect err).frames = s.frames ∧
    (s.disconnect err).isReceiving = s.isReceiving := by
  unfold Receiver.disconnect
  split
  next => exact ⟨rfl, rfl, rfl, rfl⟩
  next => exact ⟨rfl, rfl, rfl, rfl⟩

theorem Receiver.finish_leaves (s : Receiver σ) : (s.finish P).rbuf = (s.rbuf.checkArrange P s.ram).1 ∧
    (s.finish P).ram = (s.rbuf.checkArrange P s.ram).2.1 := by
  unfold Receiver.finish
  dsimp only
  split
  next hc =>
    unfold recv
    rw [if_pos hc]
    exact ⟨rfl, rfl⟩
  next hc =>
    unfold Receiver.disconnect
    rw [if_neg hc]
    exact ⟨rfl, rfl⟩

/-- Bytes that arrive behind the tail change neither the block's size nor the window. -/
theorem Receiver.fill_leaves {s : Receiver σ} {id : Nat} {m : Mem} (ok : s.rbuf.Ok s.ram id m) (data : List UInt8) :
    (s.fill data).rbuf = s.rbuf ∧ (s.fill data).ram.unitAt s.rbuf.buf = s.ram.unitAt s.rbuf.buf ∧
      (s.fill data).window = s.window ∧ (s.fill data).frames.map Frame.data = s.frames.map Frame.data ∧
      (s.Whole → (s.fill data).Whole) := by
  have hst : (s.ram.store id s.rbuf.tail data).heap id =
      some { m with bytes := Bytes.writeAt m.bytes s.rbuf.tail data } := Heap.store_self ok.live _ _
  have hfill : s.fill data =
      mark { s with ram := s.ram.store id s.rbuf.tail data } [⟨id, s.rbuf.tail, data.length⟩] := by
    unfold Receiver.fill
    simp only [ok.mem]
  have hlen := ok.dataLen_eq
  have hhead := ok.head
  rw [hfill]
  refine ⟨rfl, ?_, ?_, ?_, fun h => Whole.mark ?_ _⟩
  · change Ram.unitAt (s.ram.store id s.rbuf.tail data) _ = _
    simp [Ram.unitAt, ok.mem, ok.live, hst]
  · change Ram.loadAt (s.ram.store id s.rbuf.tail data) s.rbuf.buf s.rbuf.head s.rbuf.dataLen = _
    rw [window, ok.loadAt]
    simp only [Ram.loadAt, ok.mem, Heap.load, hst]
    exact Bytes.readAt_writeAt_disjoint (Or.inl (by omega))
  · simp [mark, Function.comp_def]
  · exact h

/-- The bytes that a step brings. -/
def RecvOp.brings : RecvOp → List UInt8
  | .complete 0 data _ => data
  | _ => []

/-- What a step of a session's life does to the receive buffer and the window. -/
inductive Receiver.Moves (C : PoolContract P) (V : ISessionTCP) (s s' : Receiver σ) : RecvOp → Prop
  | still {op} (rbuf : s'.rbuf = s.rbuf) (unit : s'.ram.unitAt s.rbuf.buf = s.ram.unitAt s.rbuf.buf)
      (window : s'.window = s.window) (data : s'.frames.map Frame.data = s.frames.map Frame.data)
      (receiving : s'.isReceiving = true → s.isReceiving = true)
      (connected : s'.isConnected = true → s.isConnected = true) (whole : s.Whole → s'.Whole)
      (none : s.arranges V P op = []) (idle : op.brings = []) : Moves C V s s' op
  | opened {ops} {id : Nat} {m : Mem} (closed : s.rbuf.buf.mem = none) (ok : s'.rbuf.Ok s'.ram id m)
      (default : s'.rbuf.defaultSize = V.receiveBufferSize) (unit : m.unit = (P.get s.ram V.receiveBufferSize).1.len)
      (fits : V.receiveBufferSize ≤ m.unit) (window : s'.window = [])
      (data : s'.frames.map Frame.data = s.frames.map Frame.data) (tail : s'.rbuf.tail = 0)
      (whole : s.Whole → s'.Whole) : Moves C V s s' (.conn ops)
  | closed (none : s'.rbuf.buf.mem = none) (off : s'.isReceiving = false) (whole : s.Whole → s'.Whole) :
      Moves C V s s' .disc
  | turned {data calls} {id : Nat} {t : Receiver σ} (brings : data ≠ []) (posted : s.isReceiving = true) (mem : s.rbuf.buf.mem = some id)
      (last : LastAt C V s (s.window ++ data) t) (ends : s' = t.lastTurn V P)
      (arranges : s.arranges V P (.complete 0 data calls) = t.lastArranges V P) :
      Moves C V s s' (.complete 0 data calls)

theorem SessionInv.opens (hu : C.Units32) (hsize : V.receiveBufferSize < 4294967296) {s : Receiver σ}
    (i : SessionInv C s) (hm : s.rbuf.buf.mem = none) (ops : List UserOp) :
    Moves C V s (s.onConnInit V P ops) (.conn ops) := by
  obtain ⟨_, hwindow, hdata, _⟩ := i.conn (P := P) hu hsize hm ops
  obtain ⟨hinit, id, m, ok, hunit, hfit, _, htail⟩ := i.init (P := P) hu hsize hm
  obtain ⟨_, hb⟩ := hinit.users (P := P) ops
  have hrecv : ∀ t : Receiver σ, t.recv.rbuf = t.rbuf ∧ t.recv.ram = t.ram := by
    intro t
    unfold recv
    split
    next => exact ⟨rfl, rfl⟩
    next => exact ⟨rfl, rfl⟩
  have hrbuf : (s.onConnInit V P ops).rbuf = (s.rbuf.init P s.ram V.receiveBufferSize V.headerSize).1 :=
    (hrecv _).1.trans hb.rbuf
  obtain ⟨n, ok', hunit', _⟩ := ok.of_same (hb.block id ok.mem)
  have hok : (s.onConnInit V P ops).rbuf.Ok (s.onConnInit V P ops).ram id n := by
    rw [hrbuf]
    exact (congrArg (RBuf.Ok _ · id n) (hrecv _).2).mpr ok'
  refine .opened hm hok (by rw [hrbuf]; rfl) (hunit'.trans hunit) (hunit' ▸ hfit) hwindow hdata
    (by rw [hrbuf]; exact htail) fun h => ?_
  · have husers := Whole.users (P := P) (s := { s with
      ram := (s.rbuf.init P s.ram V.receiveBufferSize V.headerSize).2
      rbuf := (s.rbuf.init P s.ram V.receiveBufferSize V.headerSize).1
      isConnected := true
      isReceiving := false }) h ops
    unfold onConnInit recv
    dsimp only
    split
    next => exact husers
    next => exact husers

/-- A completion that brings data ends with the last turn of the loop. -/
theorem SessionInv.turned (hv : V.Sound) {s s' : Receiver σ} (i : SessionInv C s) {data : List UInt8}
    {calls : List (List UserOp)} (hne : data ≠ []) (hs : s.step V P (.complete 0 data calls) = some s') :
    s.isReceiving = true ∧ data.length ≤ s.rbuf.remainLen s.ram ∧ ∃ id t, s.rbuf.buf.mem = some id ∧
      LastAt C V s (s.window ++ data) t ∧ s' = t.lastTurn V P ∧
      s.arranges V P (.complete 0 data calls) = t.lastArranges V P := by
  have hok : ¬((0 : Nat) ≠ 0 ∨ data = []) := by
    rintro (h | h)
    · exact h rfl
    · exact hne h
  simp only [Receiver.step] at hs
  split at hs
  next => cases hs
  next hg =>
    obtain ⟨hr, hfit⟩ := not_or.mp hg
    rw [not_not] at hr
    obtain ⟨id, hm⟩ := i.posted hr
    obtain ⟨_, _, m, ok⟩ := i.rest.inv.block id hm
    obtain ⟨hrbuf, hunit, _, _, hwhole⟩ := fill_leaves ok data
    simp only [Receiver.onRecv, List.length_eq_zero_iff, if_neg hok] at hs
    obtain ⟨hfill, hmem, hwin, hdata, _⟩ := i.rest.fill hm (Nat.le_of_not_lt hfit)
    obtain ⟨t, ht, hrun, harr⟩ := Resting.loop_last (P := P) hv calls hfill hmem (Nat.lt_succ_self _)
    cases Option.some.inj (hs.symm.trans hrun)
    refine ⟨hr, Nat.le_of_not_lt hfit, id, t, hm, ⟨ht.rest, ?_, ?_, ?_, ?_, ht.part, ?_, fun h => ht.whole (hwhole h)⟩,
      rfl, ?_⟩
    · rw [ht.buf]
      change (s.fill data).rbuf.buf = _
      rw [hrbuf]
    · rw [ht.default]
      change (s.fill data).rbuf.defaultSize = _
      rw [hrbuf]
    · rw [ht.remaining]
      change (s.fill data).rbuf.remainingSizeToExchange = _
      rw [hrbuf]
    · rw [ht.unit]
      change (s.fill data).ram.unitAt (s.fill data).rbuf.buf = _
      rw [hrbuf, hunit]
    · obtain ⟨p, hp, hrest, hframes⟩ := ht.cut
      rw [hwin] at hp
      exact ⟨p, hp, hrest, by rw [hframes, hdata]⟩
    · simp only [arranges, if_neg hok]
      exact harr

/-- What is found in the bytes, and what such a completion leaves of them. -/
theorem SessionInv.finds (hu : C.Units32) (hv : V.Sound) {s s' : Receiver σ} (i : SessionInv C s)
    {data : List UInt8} {calls : List (List UserOp)} (hne : data ≠ [])
    (hs : s.step V P (.complete 0 data calls) = some s') {t : Receiver σ}
    (hlast : LastAt C V s (s.window ++ data) t) : ∃ p, Framed V (s.window ++ data) p ∧ t.window = p.rest ∧
      s'.window = p.rest ∧ s'.frames.map Frame.data = s.frames.map Frame.data ++ p.frames := by
  obtain ⟨hr, hfit, _⟩ := i.turned hv hne hs
  obtain ⟨s'', p, hrun, hframed, _, hrec⟩ := i.complete (P := P) hu hv hr hfit hne calls
  cases Option.some.inj (hs.symm.trans hrun)
  obtain ⟨p', hframed', hrest, _⟩ := hlast.cut
  cases hframed.det hframed'
  exact ⟨p, hframed, hrest.symm, hrec.window, hrec.data⟩

theorem SessionInv.turns (hv : V.Sound) {s s' : Receiver σ} (i : SessionInv C s) {err : Nat} {data : List UInt8}
    {calls : List (List UserOp)} (hs : s.step V P (.complete err data calls) = some s') :
    Moves C V s s' (.complete err data calls) := by
  by_cases hfail : err ≠ 0 ∨ data = []
  · simp only [Receiver.step] at hs
    split at hs
    next => cases hs
    next hg =>
      obtain ⟨hr, _⟩ := not_or.mp hg
      rw [not_not] at hr
      obtain ⟨id, hm⟩ := i.posted hr
      obtain ⟨_, _, m, ok⟩ := i.rest.inv.block id hm
      obtain ⟨hrbuf, hunit, hwindow, hkept, hwhole⟩ := fill_leaves ok data
      simp only [Receiver.onRecv, List.length_eq_zero_iff, if_pos hfail] at hs
      cases Option.some.inj hs
      obtain ⟨hrb, hram, hframes, hrecv⟩ := disconnect_leaves { s.fill data with isReceiving := false } err
      refine .still (hrb.trans hrbuf) (by rw [hram]; exact hunit) ?_ (by rw [hframes]; exact hkept)
        (fun hr => absurd (hrecv.symm.trans hr) Bool.false_ne_true) ?_ (fun h f hf => hwhole h f (hframes ▸ hf))
        (if_pos hfail) ?_
      · unfold window at hwindow ⊢
        rw [hrb, hram]
        exact hwindow
      · intro hc
        unfold Receiver.disconnect at hc
        split at hc
        next => cases hc
        next hoff => exact absurd hc hoff
      · rcases hfail with herr | hnil
        · cases err with
          | zero => exact absurd rfl herr
          | succ err => rfl
        · cases err with
          | zero => exact hnil
          | succ err => rfl
  · obtain ⟨herr, hne⟩ := not_or.mp hfail
    have herr' : err = 0 := not_not.mp herr
    subst herr'
    obtain ⟨hr, _, id, t, hm, hlast, hends, harr⟩ := i.turned hv hne hs
    exact .turned hne hr hm hlast hends harr

/-- Every step of a session's life is one of these. -/
theorem SessionInv.moves (hu : C.Units32) (hv : V.Sound) (hsize : V.receiveBufferSize < 4294967296)
    {s s' : Receiver σ} {op : RecvOp} (i : SessionInv C s) (hs : s.step V P op = some s') :
    Moves C V s s' op := by
  cases op with
  | conn ops =>
    simp only [Receiver.step] at hs
    split at hs
    next => cases hs
    next hg =>
      cases Option.some.inj hs
      exact i.opens hu hsize (by_contra fun hm => hg (Or.inl hm)) ops
  | complete err data calls => exact i.turns hv hs
  | disc =>
    simp only [Receiver.step] at hs
    split at hs
    next => cases hs
    next hg =>
      cases Option.some.inj hs
      have hnull := (RBuf.uninit_spec C (P := P) (by rw [← holders_eq]; exact i.rest.inv.pool)).1
      have hoff : s.isReceiving = false := by simpa using (not_or.mp hg).2
      exact .closed (congrArg Buf.mem hnull) hoff fun h => Whole.expire h
  | user op =>
    cases Option.some.inj hs
    obtain ⟨_, hb⟩ := i.user (P := P) op
    refine .still hb.rbuf ?_ hb.window hb.data (fun hr => hb.receiving ▸ hr) (fun hc => ?_) (fun h => h.user op) rfl rfl
    · cases hm : s.rbuf.buf.mem with
      | none => simp [Ram.unitAt, hm]
      | some id => exact (hb.block id hm).unitAt hm
    · by_cases hop : op = .disconnect
      · subst hop
        simp only [Receiver.user, Receiver.disconnect] at hc
        split at hc
        next => cases hc
        next hoff => exact absurd hc hoff
      · rwa [(user_connected (P := P) (s := s) hop).1] at hc

end Ven
