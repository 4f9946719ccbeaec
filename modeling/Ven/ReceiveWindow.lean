import Ven.ReceiverTurns

namespace Ven

variable {σ : Type} {P : IMemPool σ} {C : PoolContract P} {V : ISessionTCP}

open Receiver

/-- After `change` the buffered bytes stand at the front of a block of the size the pool has given. -/
theorem RBuf.change_room (C : PoolContract P) (hu : C.Units32) {b : RBuf} {r : Ram σ} {K : Multiset Nat}
    {id size : Nat} {m : Mem} (ok : b.Ok r id m) (h : C.Inv r (b.buf.held + K)) (hlen : b.dataLen ≤ size)
    (hsize : size < 4294967296) :
    (change P r b size).2.1.unitAt (change P r b size).1.buf = (P.get r size).1.len ∧
      size ≤ (P.get r size).1.len ∧
      (change P r b size).1.remainLen (change P r b size).2.1 = (P.get r size).1.len - b.dataLen := by
  obtain ⟨id', m', mv, hunit, _⟩ := change_spec C hu ok h (Nat.le_trans hlen (C.get_fits h size)) hsize
  refine ⟨mv.ok.unitAt.trans hunit, hunit ▸ mv.fits, ?_⟩
  rw [mv.ok.remainLen_eq, mv.tail, hunit]

/-- After `check_size` the packet fits into the block. -/
theorem RBuf.checkSize_room (C : PoolContract P) (hu : C.Units32) {b : RBuf} {r : Ram σ} {K : Multiset Nat}
    {id packetSize : Nat} {m : Mem} (ok : b.Ok r id m) (h : C.Inv r (b.buf.held + K))
    (hlen : b.dataLen ≤ packetSize) (hsize : packetSize * 2 < 4294967296) :
    packetSize ≤ (checkSize P r b packetSize).2.1.unitAt (checkSize P r b packetSize).1.buf ∧
      r.unitAt b.buf ≤ (checkSize P r b packetSize).2.1.unitAt (checkSize P r b packetSize).1.buf := by
  unfold checkSize
  split
  next hgrow =>
    have hmul : u32 ((packetSize : Int) * 2) = packetSize * 2 := by
      have := u32_of_lt hsize
      rwa [Int.natCast_mul] at this
    rw [hmul]
    obtain ⟨hunit, hfit, _⟩ := change_room C hu ok h (by omega) hsize
    rw [hunit]
    omega
  next hfits => exact ⟨Nat.le_of_not_lt hfits, Nat.le_refl _⟩

/-- `check_arrange` leaves room behind the buffered bytes wherever they do not fill the block. -/
theorem RBuf.checkArrange_room (C : PoolContract P) (hu : C.Units32) {b : RBuf} {r : Ram σ} {K : Multiset Nat}
    {id : Nat} {m : Mem} (ok : b.Ok r id m) (h : C.Inv r (b.buf.held + K)) (hdef : b.defaultSize < 4294967296)
    (hleast : b.defaultSize ≤ r.unitAt b.buf) (hpart : b.dataLen < r.unitAt b.buf) :
    b.defaultSize ≤ (checkArrange P r b).2.1.unitAt (checkArrange P r b).1.buf ∧
      0 < (checkArrange P r b).1.remainLen (checkArrange P r b).2.1 := by
  unfold checkArrange
  split
  next hshrink =>
    obtain ⟨hunit, hfit, hroom⟩ := change_room C hu ok h (Nat.le_of_lt hshrink.2) hdef
    rw [hunit, hroom]
    omega
  next =>
    split
    next =>
      have hlt : r.unitAt b.buf < 4294967296 := by
        rw [ok.unitAt]
        exact ok.unit
      obtain ⟨hunit, hfit, hroom⟩ := change_room C hu ok h (Nat.le_of_lt hpart) hlt
      rw [hunit, hroom]
      omega
    next hroom => exact ⟨hleast, Nat.zero_lt_of_lt (Nat.lt_of_not_le hroom)⟩

/-- The block is as large as the session asks for, and a posted receive has room in it. -/
structure Roomy (C : PoolContract P) (V : ISessionTCP) (s : Receiver σ) : Prop where
  inv : SessionInv C s
  block : ∀ id, s.rbuf.buf.mem = some id →
    s.rbuf.defaultSize = V.receiveBufferSize ∧ V.receiveBufferSize ≤ s.ram.unitAt s.rbuf.buf
  room : s.isReceiving = true → 0 < s.rbuf.remainLen s.ram

/-- What a call of `check_size` or `check_arrange` has copied lies inside the new block. -/
def CopiesInside (x : Receiver σ × RBuf × Ram σ × List Span) : Prop :=
  ∀ w ∈ x.2.2.2, x.2.1.buf.mem = some w.mem ∧ w.pos + w.len ≤ x.2.2.1.unitAt x.2.1.buf

theorem RBuf.Arranged.copies {s : Receiver σ} {res : RBuf × Ram σ × List Span}
    (a : RBuf.Arranged C s.rest s.rbuf s.ram res.1 res.2.1 res.2.2) : CopiesInside (s, res) := by
  obtain ⟨id, m, ok, _, hw⟩ := a.ok
  intro w hmem
  obtain ⟨hid, _, hfit⟩ := hw w hmem
  refine ⟨by rw [hid]; exact ok.mem, ?_⟩
  change w.pos + w.len ≤ res.2.1.unitAt res.1.buf
  rw [ok.unitAt]
  exact hfit

/-- The end of `_on_recv` at a window that does not fill its block. -/
theorem Resting.finish_room (hu : C.Units32) {s : Receiver σ} (i : Resting C s) {id : Nat}
    (hm : s.rbuf.buf.mem = some id) (hleast : s.rbuf.defaultSize ≤ s.ram.unitAt s.rbuf.buf)
    (hpart : s.rbuf.dataLen < s.ram.unitAt s.rbuf.buf) :
    (s.finish P).rbuf.defaultSize = s.rbuf.defaultSize ∧
      s.rbuf.defaultSize ≤ (s.finish P).ram.unitAt (s.finish P).rbuf.buf ∧
      0 < (s.finish P).rbuf.remainLen (s.finish P).ram ∧
      CopiesInside (s, s.rbuf.checkArrange P s.ram) := by
  obtain ⟨_, _, m, ok⟩ := i.inv.block id hm
  have hpool : C.Inv s.ram (s.rbuf.buf.held + s.rest) := by
    rw [← holders_eq]
    exact i.inv.pool
  have ha := RBuf.checkArrange_spec C hu ok hpool i.inv.default
  obtain ⟨hunit, hroom⟩ := RBuf.checkArrange_room C hu ok hpool i.inv.default hleast hpart
  obtain ⟨hrbuf, hram⟩ := finish_leaves (P := P) s
  rw [hrbuf, hram, ha.default]
  exact ⟨rfl, hunit, hroom, ha.copies⟩

/-- What receiving with the default packet-size validator relies on: a packet size is found wherever a whole
header is there, and a header fits into the receive buffer. -/
structure ISessionTCP.Headed (V : ISessionTCP) : Prop where
  valid : V.isValidPacketSize = SessionTCP.isValidPacketSize
  found : ∀ w, V.getPacketSize w = none → w.length < V.headerSize
  pos : 0 < V.headerSize
  fits : V.headerSize ≤ V.receiveBufferSize
  size : V.receiveBufferSize < 4294967296

theorem ISessionTCP.Headed.sound (hd : V.Headed) : V.Sound := by
  intro n hn
  rw [hd.valid] at hn
  exact SessionTCP.sound_defaults 0 n hn

/-- The last turn of the loop keeps the block large enough, and leaves room where it posts. -/
theorem Receiver.LastAt.room (hu : C.Units32) (hd : V.Headed) {s t : Receiver σ} {w : List UInt8}
    (l : LastAt C V s w t) {id : Nat}
    (hm : s.rbuf.buf.mem = some id) (hdef : s.rbuf.defaultSize = V.receiveBufferSize)
    (hleast : V.receiveBufferSize ≤ s.ram.unitAt s.rbuf.buf) :
    (t.lastTurn V P).rbuf.defaultSize = V.receiveBufferSize ∧
      V.receiveBufferSize ≤ (t.lastTurn V P).ram.unitAt (t.lastTurn V P).rbuf.buf ∧
      ((t.lastTurn V P).isReceiving = true → 0 < (t.lastTurn V P).rbuf.remainLen (t.lastTurn V P).ram) ∧
      ∀ x ∈ t.lastArranges V P, CopiesInside x := by
  have hmt : t.rbuf.buf.mem = some id := by
    rw [l.buf]
    exact hm
  have hdt : t.rbuf.defaultSize = V.receiveBufferSize := l.default.trans hdef
  have hlt : V.receiveBufferSize ≤ t.ram.unitAt t.rbuf.buf := by
    rw [l.unit]
    exact hleast
  obtain ⟨_, _, m, ok⟩ := l.rest.inv.block id hmt
  unfold lastTurn lastArranges
  cases hg : V.getPacketSize t.window with
  | none =>
    have hshort := hd.found _ hg
    rw [length_window ok] at hshort
    have hfits := hd.fits
    obtain ⟨hdef', hunit, hroom, hcopy⟩ := l.rest.finish_room (P := P) hu hmt (by omega) (by omega)
    refine ⟨hdef'.trans hdt, hdt ▸ hunit, fun _ => hroom, fun x hx => ?_⟩
    cases List.mem_singleton.mp hx
    exact hcopy
  | some psize =>
    by_cases hval : V.isValidPacketSize psize = true
    · have hpart := l.part psize hg hval
      obtain ⟨_, hdouble⟩ := hd.sound psize hval
      have hpool : C.Inv t.ram (t.rbuf.buf.held + t.rest) := by
        rw [← holders_eq]
        exact l.rest.inv.pool
      have ha := RBuf.checkSize_spec C hu ok hpool (Nat.le_of_lt hpart) hdouble
      obtain ⟨hfit, hgrown⟩ := RBuf.checkSize_room C hu ok hpool (Nat.le_of_lt hpart) hdouble
      obtain ⟨hi, ⟨id', hb⟩, hlen, _⟩ := l.rest.rearrange ha
      have hdef' : (t.checkSize P psize).rbuf.defaultSize = V.receiveBufferSize := ha.default.trans hdt
      have hunit' : t.ram.unitAt t.rbuf.buf ≤
          (t.checkSize P psize).ram.unitAt (t.checkSize P psize).rbuf.buf := hgrown
      have hpart' : (t.checkSize P psize).rbuf.dataLen < (t.checkSize P psize).ram.unitAt
          (t.checkSize P psize).rbuf.buf := by
        have hsame : (t.checkSize P psize).rbuf.dataLen = t.rbuf.dataLen := hlen
        have hfit' : psize ≤ (t.checkSize P psize).ram.unitAt (t.checkSize P psize).rbuf.buf := hfit
        omega
      have hleast' : (t.checkSize P psize).rbuf.defaultSize ≤ (t.checkSize P psize).ram.unitAt
          (t.checkSize P psize).rbuf.buf := by omega
      obtain ⟨hkeep, hunit, hroom, hcopy⟩ := hi.finish_room (P := P) hu hb hleast' hpart'
      simp only [hval, if_true]
      refine ⟨hkeep.trans hdef', hdef' ▸ hunit, fun _ => hroom, fun x hx => ?_⟩
      rcases List.mem_cons.mp hx with rfl | hx
      · exact ha.copies
      · cases List.mem_singleton.mp hx
        exact hcopy
    · obtain ⟨hrbuf, hram, _, hrecv⟩ := disconnect_leaves { t with isReceiving := false } 16000
      simp only [hval, Bool.false_eq_true, if_false]
      refine ⟨by rw [hrbuf, hdt], by rw [hrbuf, hram]; exact hlt, fun h => ?_, fun x hx => ?_⟩
      · exact absurd (hrecv.symm.trans h) Bool.false_ne_true
      · cases hx

/-- One step of a session's life keeps room in the posted window. -/
theorem Roomy.step (hu : C.Units32) (hd : V.Headed) {s s' : Receiver σ} {op : RecvOp} (h : Roomy C V s)
    (hs : s.step V P op = some s') : Roomy C V s' ∧ ∀ x ∈ s.arranges V P op, CopiesInside x := by
  have hi := h.inv.step hu hd.sound hd.size hs
  cases h.inv.moves hu hd.sound hd.size hs with
  | still hrbuf hunit _ _ hrecv _ _ hnone =>
    refine ⟨⟨hi, fun id hid => ?_, fun hr => ?_⟩, fun x hx => by rw [hnone] at hx; cases hx⟩
    · rw [hrbuf] at hid ⊢
      rw [hunit]
      exact h.block id hid
    · have hroom := h.room (hrecv hr)
      unfold RBuf.remainLen at hroom ⊢
      rwa [hrbuf, hunit]
  | opened _ ok hdef _ hfits _ _ htail =>
    refine ⟨⟨hi, fun id hid => ?_, fun _ => ?_⟩, fun x hx => by cases hx⟩
    · rw [ok.unitAt]
      exact ⟨hdef, hfits⟩
    · have hpos := hd.pos
      have hheader := hd.fits
      rw [ok.remainLen_eq, htail]
      omega
  | closed hnone hoff =>
    refine ⟨⟨hi, fun id hid => absurd (hnone.symm.trans hid) (by simp), fun hr => ?_⟩, fun x hx => by cases hx⟩
    exact absurd (hoff.symm.trans hr) Bool.false_ne_true
  | turned _ _ hm hlast hends harr =>
    subst hends
    obtain ⟨hdef, hleast⟩ := h.block _ hm
    obtain ⟨hdef', hleast', hroom, hcopy⟩ := hlast.room (P := P) hu hd hm hdef hleast
    exact ⟨⟨hi, fun _ _ => ⟨hdef', hleast'⟩, hroom⟩, fun x hx => hcopy x (harr ▸ hx)⟩

end Ven
