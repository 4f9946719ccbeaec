import Ven.TcpLink

namespace Ven

variable {σ : Type} {P : IMemPool σ} {C : PoolContract P} {V : ISessionTCP}

open Receiver SessionTCP

section
variable {s s' : Receiver σ}

theorem Receiver.disconnect_off (s : Receiver σ) (err : Nat) : (s.disconnect err).isConnected = false := by
  unfold Receiver.disconnect
  split
  next => rfl
  next hoff => exact Bool.eq_false_iff.mpr hoff

/-- After `_on_recv` a session that is connected has posted its next receive. -/
theorem Receiver.finish_posted (hc : (s.finish P).isConnected = true) : (s.finish P).isReceiving = true := by
  unfold Receiver.finish at hc ⊢
  dsimp only at hc ⊢
  split at hc
  next hon =>
    rw [if_pos hon]
    unfold Receiver.recv
    rw [if_pos hon]
  next =>
    rw [Receiver.disconnect_off] at hc
    cases hc

theorem Receiver.loop_posted {fuel : Nat} {calls : List (List UserOp)} (h : loop V P fuel calls s = some s')
    (hc : s'.isConnected = true) : s'.isReceiving = true := by
  induction fuel generalizing calls s with
  | zero => cases h
  | succ fuel ih =>
    rw [loop] at h
    split at h
    next =>
      cases Option.some.inj h
      exact finish_posted hc
    next psize _ =>
      split at h
      next =>
        cases Option.some.inj h
        rw [Receiver.disconnect_off] at hc
        cases hc
      next =>
        split at h
        next => exact ih h
        next =>
          cases Option.some.inj h
          exact finish_posted hc

theorem Receiver.user_stays (op : UserOp) (hc : (s.user P op).isConnected = true) : s.isConnected = true := by
  by_cases hop : op = .disconnect
  · rw [hop] at hc
    have hoff : (s.disconnect 0).isConnected = false := Receiver.disconnect_off s 0
    exact absurd (hoff.symm.trans hc) Bool.false_ne_true
  · rwa [(user_connected hop).1] at hc

theorem Receiver.users_stays {ops : List UserOp} (hc : (s.users P ops).isConnected = true) : s.isConnected = true := by
  induction ops generalizing s with
  | nil => exact hc
  | cons op ops ih => exact user_stays op (ih hc)

theorem Receiver.finish_stays (hc : (s.finish P).isConnected = true) : s.isConnected = true := by
  unfold Receiver.finish at hc
  dsimp only at hc
  split at hc
  next hon => exact hon
  next =>
    rw [Receiver.disconnect_off] at hc
    cases hc

theorem Receiver.loop_stays {fuel : Nat} {calls : List (List UserOp)} (h : loop V P fuel calls s = some s')
    (hc : s'.isConnected = true) : s.isConnected = true := by
  induction fuel generalizing calls s with
  | zero => cases h
  | succ fuel ih =>
    rw [loop] at h
    split at h
    next =>
      cases Option.some.inj h
      exact finish_stays hc
    next psize _ =>
      split at h
      next =>
        cases Option.some.inj h
        rw [Receiver.disconnect_off] at hc
        cases hc
      next =>
        split at h
        next =>
          have hdeliver : (s.deliver P psize (calls.headD [])).isConnected = true := ih h
          have husers : ((s.call psize).users P (calls.headD [])).isConnected = true := hdeliver
          have hcall : (s.call psize).isConnected = true := users_stays husers
          exact hcall
        next =>
          cases Option.some.inj h
          have hcheck : (s.checkSize P psize).isConnected = true := finish_stays hc
          exact hcheck

/-- Only a new connection connects a session. -/
theorem Receiver.step_stays {op : RecvOp} (hop : ∀ ops, op ≠ .conn ops) (hs : s.step V P op = some s')
    (hc : s'.isConnected = true) : s.isConnected = true := by
  cases op with
  | conn ops => exact absurd rfl (hop ops)
  | complete err data calls =>
    simp only [Receiver.step] at hs
    split at hs
    next => cases hs
    next =>
      have hfill : (s.fill data).isConnected = s.isConnected := by
        unfold Receiver.fill
        split <;> rfl
      rw [Receiver.onRecv] at hs
      split at hs
      next =>
        cases Option.some.inj hs
        rw [Receiver.disconnect_off] at hc
        cases hc
      next =>
        have hbefore := loop_stays hs hc
        exact hfill.symm.trans hbefore
  | disc =>
    simp only [Receiver.step] at hs
    split at hs
    next => cases hs
    next =>
      cases Option.some.inj hs
      exact hc
  | user op =>
    cases Option.some.inj hs
    exact user_stays op hc

theorem Roomy.disconnect (h : Roomy C V s) (err : Nat) : Roomy C V (s.disconnect err) := by
  obtain ⟨hrbuf, hram, _, hrecv⟩ := disconnect_leaves s err
  refine ⟨⟨h.inv.rest.disconnect err, fun hr => ?_⟩, fun id hid => ?_, fun hr => ?_⟩
  · rw [hrbuf]
    exact h.inv.posted (hrecv ▸ hr)
  · rw [hrbuf] at hid ⊢
    rw [hram]
    exact h.block id hid
  · rw [hrbuf, hram]
    exact h.room (hrecv ▸ hr)

end

/-- The session has delivered exactly the packets of the bytes that arrived, and goes on from there as long as it
receives. -/
structure Reads (C : PoolContract P) (rbs : Nat) (bytes : List UInt8) (s : Receiver σ) : Prop where
  room : Roomy C (defaults rbs) s
  frames : s.frames.map Frame.data = (refParse bytes).frames
  window : s.isReceiving = true → s.window = (refParse bytes).rest
  posted : s.isConnected = true → s.isReceiving = true
  fresh : s.rbuf.buf.mem = none → bytes = []

section
variable {rbs : Nat} {bytes : List UInt8} {s s' : Receiver σ}

theorem Reads.user (hu : C.Units32) (hd : (defaults rbs).Headed) (h : Reads C rbs bytes s) (op : UserOp) :
    Reads C rbs bytes (s.user P op) := by
  obtain ⟨_, hb⟩ := h.room.inv.user op
  have hstep : s.step (defaults rbs) P (.user op) = some (s.user P op) := rfl
  have hroom : Roomy C (defaults rbs) (s.user P op) := (h.room.step hu hd hstep).1
  refine ⟨hroom, hb.data.trans h.frames, fun hr => ?_, fun hc => ?_, fun hm => ?_⟩
  · rw [hb.window]
    exact h.window (hb.receiving ▸ hr)
  · rw [hb.receiving]
    exact h.posted (user_stays op hc)
  · exact h.fresh (hb.rbuf ▸ hm)

theorem Reads.drop (h : Reads C rbs bytes s) (err : Nat) : Reads C rbs bytes (s.disconnect err) := by
  obtain ⟨hrbuf, hram, hframes, hrecv⟩ := disconnect_leaves s err
  have hwindow : (s.disconnect err).window = s.window := by
    unfold Receiver.window
    rw [hrbuf, hram]
  refine ⟨h.room.disconnect err, by rw [hframes]; exact h.frames, fun hr => ?_, fun hc => ?_, fun hm => ?_⟩
  · rw [hwindow]
    exact h.window (hrecv ▸ hr)
  · rw [Receiver.disconnect_off] at hc
    cases hc
  · exact h.fresh (hrbuf ▸ hm)

/-- The connection is lost, or the other end has closed it. -/
theorem Reads.lost (hu : C.Units32) (hd : (defaults rbs).Headed) (h : Reads C rbs bytes s) {err : Nat}
    (hs : s.step (defaults rbs) P (.complete err [] []) = some s') : Reads C rbs bytes s' := by
  have hroom := (h.room.step hu hd hs).1
  simp only [Receiver.step] at hs
  split at hs
  next => cases hs
  next hguard =>
    obtain ⟨hr, hfit⟩ := not_or.mp hguard
    rw [Receiver.onRecv, if_pos (Or.inr List.length_nil)] at hs
    cases Option.some.inj hs
    obtain ⟨id, hm⟩ := h.room.inv.posted (not_not.mp hr)
    have hdata : (s.fill []).frames.map Frame.data = s.frames.map Frame.data :=
      (h.room.inv.rest.fill hm (Nat.zero_le _)).2.2.2.1
    obtain ⟨hrbuf, _, hframes, hrecv⟩ := disconnect_leaves { s.fill [] with isReceiving := false } err
    have hkept : (s.fill []).rbuf = s.rbuf := by
      unfold Receiver.fill
      rw [hm]
      rfl
    refine ⟨hroom, by rw [hframes]; exact hdata.trans h.frames, fun hon => ?_, fun hc => ?_, fun hnone => ?_⟩
    · exact absurd (hrecv.symm.trans hon) Bool.false_ne_true
    · rw [Receiver.disconnect_off] at hc
      cases hc
    · have hbuf : s.rbuf.buf.mem = none := by
        rw [← hkept, ← hnone, hrbuf]
      exact h.fresh hbuf

theorem Reads.recv (hu : C.Units32) (hd : (defaults rbs).Headed) (h : Reads C rbs bytes s)
    (good : (refParse bytes).bad = false) {data : List UInt8} (hne : data ≠ []) {calls : List (List UserOp)}
    (hs : s.step (defaults rbs) P (.complete 0 data calls) = some s') : Reads C rbs (bytes ++ data) s' := by
  have hroom := (h.room.step hu hd hs).1
  have hguard : s.isReceiving = true ∧ data.length ≤ s.rbuf.remainLen s.ram := by
    simp only [Receiver.step] at hs
    split at hs
    next => cases hs
    next hg =>
      obtain ⟨hr, hfit⟩ := not_or.mp hg
      exact ⟨not_not.mp hr, Nat.le_of_not_lt hfit⟩
  obtain ⟨t, p, hrun, hframed, _, hrec⟩ :=
    h.room.inv.complete hu (sound_defaults rbs) hguard.1 hguard.2 hne calls
  cases Option.some.inj (hs.symm.trans hrun)
  rw [h.window hguard.1] at hframed
  have hp := (framed_refParse rbs _).det hframed
  have hall : refParse (bytes ++ data) = { p with frames := (refParse bytes).frames ++ p.frames } := by
    rw [refParse_append good, hp]
  refine ⟨hroom, ?_, fun _ => ?_, fun hc => ?_, fun hnone => ?_⟩
  · rw [hrec.data, h.frames, hall]
  · rw [hrec.window, hall]
  · rw [Receiver.step, if_neg (by rw [not_or, not_not]; exact ⟨hguard.1, by omega⟩), Receiver.onRecv] at hrun
    split at hrun
    next =>
      cases Option.some.inj hrun
      rw [Receiver.disconnect_off] at hc
      cases hc
    next => exact loop_posted hrun hc
  · obtain ⟨id, hid⟩ := hrec.block
    cases hnone.symm.trans hid

/-- A session connects before it has received anything. -/
theorem Reads.conn (hu : C.Units32) (hd : (defaults rbs).Headed) (h : Reads C rbs bytes s) {ops : List UserOp}
    (hs : s.step (defaults rbs) P (.conn ops) = some s') : Reads C rbs bytes s' := by
  have hroom := (h.room.step hu hd hs).1
  simp only [Receiver.step] at hs
  split at hs
  next => cases hs
  next hguard =>
    cases Option.some.inj hs
    have hm : s.rbuf.buf.mem = none := by_contra fun hm => hguard (Or.inl hm)
    cases h.fresh hm
    obtain ⟨_, hwindow, hframes, _⟩ := h.room.inv.conn (V := defaults rbs) hu hd.size hm ops
    have hnil : (refParse []).rest = [] := by
      rw [refParse_nil]
    refine ⟨hroom, hframes.trans h.frames, fun _ => hwindow.trans hnil.symm, fun hc => ?_, fun _ => rfl⟩
    unfold Receiver.onConnInit Receiver.recv at hc ⊢
    dsimp only at hc ⊢
    split at hc
    next hon => rw [if_pos hon]
    next hoff => exact absurd hc hoff

end

namespace Link

/-- What was accepted at one end flows to the other in this order: first the bytes that have arrived, then those on the
wire. -/
structure Flowing (C : PoolContract P) (rbs : Nat) (l : Link σ) : Prop where
  ready : l.sender.Ready
  fits : l.sender.pool.arrCnt ≤ 178956970
  woken : l.sender.Woken
  covered : l.sender.Covered
  order : l.sender.InOrder
  packets : l.sender.Carries Whole
  stream : ∃ got, Reads C rbs got l.receiver ∧ got ++ l.wire <+: l.sender.handed.flatten.flatten ∧
    (l.broken = false → got ++ l.wire = l.sender.handed.flatten.flatten)

variable {rbs : Nat} {l l' : Link σ}

theorem Flowing.ordered (f : Flowing C rbs l) : l.sender.handed.flatten.flatten <+: l.sender.accepted.flatten := by
  obtain ⟨more, hmore⟩ := f.order.ordered
  rw [← hmore, List.flatten_append]
  exact List.prefix_append _ _

/-- What has arrived is parsed into the first of the packets. -/
theorem Flowing.parsed (f : Flowing C rbs l) {got : List UInt8} (hgot : got ++ l.wire <+: l.sender.handed.flatten.flatten) :
    (refParse got).bad = false ∧ (refParse got).frames <+: l.sender.accepted :=
  refParse_prefix f.packets.accepted (((List.prefix_append _ _).trans hgot).trans f.ordered)

theorem send_other {op : SendOp (List UInt8)} (hop : ∀ t fail, op ≠ .wsaSend t fail) :
    l.send op = (l.sender.sizedStep op).map fun s => { l with sender := s } := by
  unfold send
  cases l.sender.sizedStep op with
  | none => rfl
  | some s =>
    cases op with
    | wsaSend t fail => exact absurd rfl (hop t fail)
    | _ => rfl

theorem send_sized {op : SendOp (List UInt8)} (hs : l.send op = some l') :
    l.sender.sizedStep op = some l'.sender := by
  obtain ⟨s, hstep, hrest⟩ := Option.bind_eq_some_iff.mp hs
  split at hrest
  next =>
    split at hrest
    next => cases hrest
    next =>
      cases Option.some.inj hrest
      exact hstep
  next =>
    cases Option.some.inj hrest
    exact hstep
  next =>
    cases Option.some.inj hrest
    exact hstep

theorem Flowing.send_sender (f : Flowing C rbs l) {op : SendOp (List UInt8)} (hs : l.send op = some l')
    (countable : l'.Countable) : l.sender.step op = some l'.sender :=
  f.ready.of_sized f.fits (send_sized hs) countable

theorem Flowing.send (f : Flowing C rbs l) {op : SendOp (List UInt8)} (turn : l.sender.InTurn op)
    (packet : (LinkOp.send op).Packet) (hs : l.send op = some l') (countable : l'.Countable) : Flowing C rbs l' := by
  have hstep := f.send_sender hs countable
  obtain ⟨s, hsized, hrest⟩ := Option.bind_eq_some_iff.mp hs
  rw [Option.some.inj ((send_sized hs).symm.trans hsized)] at hstep
  obtain ⟨hready, moved⟩ := f.ready.step hstep
  have hfits : s.pool.arrCnt ≤ 178956970 := (Sender.step_grows hstep).arrCnt.trans_le f.fits
  have hcall : ∀ t buf, op = .call t (some buf) → Whole buf := by
    intro t buf hop
    rw [hop] at packet
    exact packet
  have hw := f.ready.woken f.woken hstep
  have hc := f.ready.covered f.covered hstep
  have ho := f.ready.inOrder f.order turn hstep
  have hp := f.ready.carries f.packets hcall hstep
  obtain ⟨got, hreads, hpre, heq⟩ := f.stream
  cases moved with
  | accept added accepted handed pending other =>
    rw [send_other other, hsized] at hs
    cases Option.some.inj hs
    refine ⟨hready, hfits, hw, hc, ho, hp, got, hreads, ?_, fun hb => ?_⟩
    · rw [handed]
      exact hpre
    · rw [handed]
      exact heq hb
  | @submit t fail _ id pc accepted handed pending =>
    have hsov : l.handing t = (l.sender.pool.items id).flatten := by
      unfold handing
      rw [Holders.popped_sov pc]
      rfl
    have hflat : s.handed.flatten.flatten = l.sender.handed.flatten.flatten ++ (l.sender.pool.items id).flatten := by
      rw [handed, List.flatten_append, List.flatten_singleton, List.flatten_append]
    cases fail with
    | none =>
      dsimp only at hrest
      split at hrest
      next => cases hrest
      next hb =>
        cases Option.some.inj hrest
        have hall : got ++ (l.wire ++ l.handing t) = s.handed.flatten.flatten := by
          rw [hflat, ← List.append_assoc, heq (Bool.eq_false_iff.mpr hb), hsov]
        exact ⟨hready, hfits, hw, hc, ho, hp, got, hreads, ⟨[], by rw [List.append_nil]; exact hall⟩, fun _ => hall⟩
    | some err =>
      cases Option.some.inj hrest
      refine ⟨hready, hfits, hw, hc, ho, hp, got, hreads, ?_, nofun⟩
      rw [hflat]
      exact hpre.trans (List.prefix_append _ _)

theorem send_receiver {op : SendOp (List UInt8)} (hs : l.send op = some l') : l'.receiver = l.receiver := by
  obtain ⟨s, _, hrest⟩ := Option.bind_eq_some_iff.mp hs
  split at hrest
  next =>
    split at hrest
    next => cases hrest
    next =>
      cases Option.some.inj hrest
      rfl
  next =>
    cases Option.some.inj hrest
    rfl
  next =>
    cases Option.some.inj hrest
    rfl

/-- A step of the receiving session that takes nothing from the wire. -/
theorem Flowing.receiver (f : Flowing C rbs l) {r : Receiver σ}
    (hr : ∀ got, Reads C rbs got l.receiver → Reads C rbs got r) :
    Flowing C rbs { l with receiver := r } ∧ Link.delivered { l with receiver := r } = l.delivered := by
  obtain ⟨got, hreads, hpre, heq⟩ := f.stream
  have hnew := hr got hreads
  exact ⟨⟨f.ready, f.fits, f.woken, f.covered, f.order, f.packets, got, hnew, hpre, heq⟩, hnew.frames.trans hreads.frames.symm⟩

/-- What a completed receive takes from the wire is parsed where the earlier bytes left off. -/
theorem Flowing.recv (hu : C.Units32) (hd : (defaults rbs).Headed) (f : Flowing C rbs l) {data : List UInt8}
    {calls : List (List UserOp)} (hs : l.step rbs P (.recv data calls) = some l') :
    Flowing C rbs l' ∧ l.delivered <+: l'.delivered := by
  simp only [Link.step] at hs
  split at hs
  next hguard =>
    obtain ⟨r, hr, rfl⟩ := Option.map_eq_some_iff.mp hs
    obtain ⟨hne, rest, hrest⟩ := hguard
    obtain ⟨got, hreads, hflow, heq⟩ := f.stream
    have good := (f.parsed hflow).1
    have hnew := hreads.recv hu hd good hne hr
    have hmove : got ++ data ++ l.wire.drop data.length = got ++ l.wire := by
      rw [← hrest, List.drop_left, List.append_assoc]
    refine ⟨⟨f.ready, f.fits, f.woken, f.covered, f.order, f.packets, got ++ data, hnew, ?_, fun hb => ?_⟩, ?_⟩
    · rw [hmove]
      exact hflow
    · rw [hmove]
      exact heq hb
    · unfold Link.delivered
      rw [hnew.frames, hreads.frames, refParse_append good]
      exact List.prefix_append _ _
  next => cases hs

/-- One step keeps the flow, and only a completed receive delivers. -/
theorem Flowing.step (hu : C.Units32) (hd : (defaults rbs).Headed) (f : Flowing C rbs l) {op : LinkOp}
    (hs : l.step rbs P op = some l') (turn : l.InTurn op) (packet : op.Packet)
    (countable : ∀ op', op = .send op' → l'.Countable) :
    Flowing C rbs l' ∧ ((∀ data calls, op ≠ .recv data calls) → l'.delivered = l.delivered) := by
  cases op with
  | send op =>
    refine ⟨f.send turn packet hs (countable op rfl), fun _ => ?_⟩
    unfold Link.delivered
    rw [send_receiver hs]
  | conn ops =>
    obtain ⟨r, hr, rfl⟩ := Option.map_eq_some_iff.mp hs
    exact (f.receiver fun got hreads => hreads.conn hu hd hr).imp id fun h _ => h
  | recv data calls => exact ⟨(f.recv hu hd hs).1, fun hno => absurd rfl (hno data calls)⟩
  | lost err =>
    obtain ⟨r, hr, rfl⟩ := Option.map_eq_some_iff.mp hs
    exact (f.receiver fun got hreads => hreads.lost hu hd hr).imp id fun h _ => h
  | user op =>
    cases Option.some.inj hs
    exact (f.receiver fun got hreads => hreads.user hu hd op).imp id fun h _ => h
  | drop err =>
    cases Option.some.inj hs
    exact (f.receiver fun got hreads => hreads.drop err).imp id fun h _ => h

/-- What has been delivered are the first of the packets accepted. -/
theorem Flowing.delivered (f : Flowing C rbs l) : l.delivered <+: l.sender.accepted := by
  obtain ⟨got, hreads, hpre, _⟩ := f.stream
  rw [Link.delivered, hreads.frames]
  exact (f.parsed hpre).2

/-- Nothing but calls of the users can happen any more. -/
def Settled (rbs : Nat) (P : IMemPool σ) (l : Link σ) : Prop :=
  (∀ op : SendOp (List UInt8), op.Internal → l.send op = none) ∧ ∀ data, l.step rbs P (.recv data []) = none

theorem idle_of_settled (hset : ∀ op : SendOp (List UInt8), op.Internal → l.send op = none) (hwhole : l.broken = false) :
    l.sender.Idle := by
  by_contra hbusy
  obtain ⟨op, hint, hsome⟩ := Sender.exists_internal hbusy
  obtain ⟨s, hs⟩ := Option.isSome_iff_exists.mp (Sender.sizedStep_isSome.trans hsome)
  have hnone := hset op hint
  unfold Link.send at hnone
  rw [hs, Option.bind_some, hwhole] at hnone
  cases op with
  | wsaSend t fail =>
    cases fail with
    | none => cases hnone
    | some err => exact hint
  | _ => cases hnone

/-- A connection that has settled without being lost has delivered all that was accepted. -/
theorem Flowing.settled (hu : C.Units32) (f : Flowing C rbs l) (hset : l.Settled rbs P) (hwhole : l.broken = false)
    (hfrom : l.sender.isConnected = true) (hto : l.receiver.isConnected = true) :
    l.wire = [] ∧ l.delivered = l.sender.accepted := by
  obtain ⟨got, hreads, hpre, heq⟩ := f.stream
  have hrecv := hreads.posted hto
  have hidle := idle_of_settled hset.1 hwhole
  have hwire : l.wire = [] := by
    cases hw : l.wire with
    | nil => rfl
    | cons b bytes =>
      have hfit : [b].length ≤ l.receiver.rbuf.remainLen l.receiver.ram := hreads.room.room hrecv
      obtain ⟨t, _, ht, _⟩ :=
        hreads.room.inv.complete hu (sound_defaults rbs) hrecv hfit (List.cons_ne_nil b []) []
      have hgo : [b] ≠ [] ∧ [b] <+: l.wire := ⟨List.cons_ne_nil b [], by rw [hw]; exact ⟨bytes, rfl⟩⟩
      have hnone := hset.2 [b]
      rw [Link.step, if_pos hgo, ht] at hnone
      cases hnone
  have hsent := f.ready.drained f.woken f.covered f.order hidle hfrom
  have hgot : got = l.sender.accepted.flatten := by
    have hall := heq hwhole
    rw [hwire, List.append_nil] at hall
    rw [hall, ← hsent]
  refine ⟨hwire, ?_⟩
  rw [Link.delivered, hreads.frames, hgot, refParse_flatten f.packets.accepted]

end Link

end Ven
