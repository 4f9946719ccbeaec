import Ven.LifeEnding

namespace Ven

variable {α : Type}

def Opening.ends (o : Opening α) : Bool := o.onConn.all Call.ends && o.ok && o.onDisc.all Call.ends

namespace LifeOp

/-- No `DisconnectEx` fails at once. -/
def ends : LifeOp α → Bool
  | .connect _ => true
  | .call c => c.ends
  | .accept _ o => o.ends
  | .conn _ o => o.ends
  | .disc _ => true
  | .recv _ _ _ packets _ _ ok _ => packets.all (fun cs => cs.all Call.ends) && ok
  | .send _ _ _ _ ok _ => ok

/-- The accept context can be updated. -/
def updates : LifeOp α → Bool
  | .accept updated _ => updated
  | _ => true

end LifeOp

namespace SessionTCP

/-- Between steps: a session that is off waits for a completion, or has parted. -/
structure Closing (isServer r : Bool) (lost : Prop) (s : SessionTCP α) : Prop where
  ending : Ending isServer r lost s
  retried : Retried s

variable {isServer r : Bool} {lost : Prop} {s s' : SessionTCP α} {f : SessionTCP α → SessionTCP α}

theorem Tended.closing (h : Tended isServer r lost s s') : Closing isServer r lost s' := ⟨h.ending, h.retried⟩

/-- A session that was just opened owes nothing of what came before. -/
theorem Closing.connInit (sound : Sound 0 s.opened) (hserver : s.isServer = isServer) (hrelease : s.isRelease = r)
    {o : Opening α} (only : o.within (· == r) = true) (ends : o.ends = true) :
    Closing isServer r lost (s._on_conn_init o) := by
  have opens := s.opened_spec
  simp only [Opening.within, Bool.and_eq_true] at only
  simp only [Opening.ends, Bool.and_eq_true] at ends
  have he : Ending isServer r lost s.opened := by
    refine ⟨opens.isServer.trans hserver, opens.isRelease.trans hrelease, fun hdown => ?_⟩
    rw [opens.isDisconnecting] at hdown
    cases hdown
  have steady := sound.calls o.onConn
  have hc := he.calls sound (retried_on opens.isConnected) o.onConn only.1 ends.1.1
  have hidle : (s.opened.calls o.onConn).isReceiving = false := steady.receiving.trans opens.isReceiving
  have hd := hc.ending.recv steady.sound hc.retried (calls_silent only.2) hidle o.fail
  rw [onConnInit_eq, ends.1.2]
  exact hd.closing

theorem Closing.connect (h : Closing isServer r lost s) (fail : Option Nat) : Closing isServer r lost (s.connect fail).1 := by
  have he := h.ending
  unfold SessionTCP.connect
  split
  next => exact h
  next =>
    split
    next => exact h
    next =>
      split
      next => exact h
      next =>
        cases fail with
        | none => exact ⟨⟨he.server, he.release, he.ends⟩, h.retried⟩
        | some err => exact ⟨⟨he.server, he.release, he.ends⟩, h.retried⟩

theorem Closing.call (h : Closing isServer r lost s) (sound : Sound 0 s) {c : Call α} (only : c.within (· == r) = true)
    (ends : c.ends = true) : Closing isServer r lost (s.call c) :=
  (h.ending.call sound h.retried c only ends).closing

/-- A session in the pool is off. -/
theorem Sound.offInPool (h : Sound 0 s) (hpos : 0 < s.pooled) : s.isConnected = false := by
  cases hd : s.isDisconnecting with
  | true => exact (h.down hd).1
  | false =>
    have hgen : s.gen = 0 := by
      by_contra hne
      have hz := ((h.up hd).2 (by omega)).1
      omega
    exact (h.fresh hgen).1

theorem Closing.accept (h : Closing isServer false lost s) (sound : Sound 0 s) (hpos : 0 < s.pooled) {updated : Bool}
    {o : Opening α} (updates : updated = true ∨ lost) (only : o.within (· == false) = true) (ends : o.ends = true) :
    Closing isServer false lost ({ s with pooled := s.pooled - 1 }._on_accept updated o) := by
  have he := h.ending
  obtain ⟨hrecvs, hsends, hdiscs, hpooled⟩ := sound.inPool hpos
  unfold _on_accept
  split
  next hfail =>
    have hlost : lost := by
      rcases updates with hok | hlost
      · rw [hok] at hfail
        cases hfail
      · exact hlost
    have hoff : s.isConnected = false := sound.offInPool hpos
    have hset : SessionTCP.disconnect { s with pooled := s.pooled - 1 } false (fun s => s.calls o.onDisc) =
        { s with pooled := s.pooled - 1, isRelease := false } := by
      simp [SessionTCP.disconnect, hoff]
    rw [hset]
    refine ⟨⟨he.server, rfl, fun hdown => ?_⟩, h.retried⟩
    rcases he.ends hdown with hone | ⟨hloud, _⟩
    · omega
    · exact Or.inr ⟨hloud, Or.inr hlost⟩
  next =>
    have ht : Sound 0 { s with pooled := s.pooled - 1 } := sound.leavePool hpos
    exact Closing.connInit (ht.openedUp hrecvs hsends hdiscs hpooled) he.server he.release only ends

theorem Closing.connDone (h : Closing isServer r lost s) (sound : Sound 0 s) (hpos : 0 < s.conns) {err : Nat}
    {o : Opening α} (settled : err = 0 → s.recvs = [] ∧ s.sends = [] ∧ s.discs = 0) (only : o.within (· == r) = true)
    (ends : o.ends = true) : Closing isServer r lost ({ s with conns := s.conns - 1 }._on_conn err o) := by
  have he := h.ending
  have hside : s.isServer = false ∧ s.pooled = 0 := by
    rcases sound.side with hc | hc
    · omega
    · exact hc
  have ht := sound.connecting false (s.conns - 1) (Or.inr hside)
  unfold _on_conn
  dsimp only
  split
  next =>
    have hr : Sound 0 (SessionTCP.record { s with isConnecting := false, conns := s.conns - 1 } (.refused err)) :=
      ht.record (e := .refused err) nofun rfl rfl trivial
    have hquiet : Ending isServer r lost
        (SessionTCP.record { s with isConnecting := false, conns := s.conns - 1 } (.refused err)) :=
      Ending.record (s := { s with isConnecting := false, conns := s.conns - 1 }) ⟨he.server, he.release, he.ends⟩
        (e := .refused err) nofun rfl
    have hgen : (SessionTCP.record { s with isConnecting := false, conns := s.conns - 1 } (.refused err)).gen = s.gen :=
      gen_record (e := .refused err) nofun { s with isConnecting := false, conns := s.conns - 1 }
    simp only [Opening.within, Bool.and_eq_true] at only
    simp only [Opening.ends, Bool.and_eq_true] at ends
    have hretried : Retried (SessionTCP.record { s with isConnecting := false, conns := s.conns - 1 } (.refused err)) :=
      fun hc hoff hg hup => h.retried hc hoff (hgen ▸ hg) hup
    exact (hquiet.calls hr hretried o.onDisc only.2 ends.2).closing
  next herr =>
    obtain ⟨hrecvs, hsends, hdiscs⟩ := settled (by omega)
    exact Closing.connInit (ht.openedUp hrecvs hsends hdiscs hside.2) he.server he.release only ends

theorem Closing.discDone (h : Closing isServer r lost s) (sound : Sound 0 s) (silent : Silent r f)
    (hpos : 0 < s.discs) : Closing isServer r lost ({ s with discs := s.discs - 1 }._on_disc f) := by
  have he := h.ending
  have honce := sound.once
  have hpooled : s.pooled = 0 := by omega
  have hdown : s.isDisconnecting = true := by
    cases hd : s.isDisconnecting with
    | true => rfl
    | false =>
      have hz := (sound.up hd).1
      omega
  have hd : Tended isServer r lost { s with discs := s.discs - 1 } ({ s with discs := s.discs - 1 }._on_disc f) :=
    parts silent he.server he.release (sound.down hdown).1 hdown hpooled
  exact hd.closing

theorem Ending.deliver {g : Nat} (h : Ending isServer r lost s) (receiving : Receiving g s) (retried : Retried s)
    {packets : List (List (Call α))} (only : packets.all (Call.allWithin (· == r)) = true)
    (ends : packets.all (fun cs => cs.all Call.ends) = true) : Ending isServer r lost (deliver g packets s) := by
  induction packets generalizing s with
  | nil => exact h
  | cons cs packets ih =>
    simp only [List.all_cons, Bool.and_eq_true] at only ends
    simp only [SessionTCP.deliver]
    have hstep := receiving.deliver [cs]
    simp only [SessionTCP.deliver] at hstep
    have hpos : 0 < s.gen := receiving.gen.symm ▸ receiving.pos
    have hother : Event.recv g ≠ .conn := by simp
    have hrec : Sound 0 (s.record (.recv g)) := receiving.sound.record hother rfl rfl
      ⟨receiving.gen.symm, ((receiving.sound.up receiving.up).2 hpos).2⟩
    have hgen : (s.record (.recv g)).gen = s.gen := gen_record hother s
    have hret : Retried (s.record (.recv g)) := fun hc hoff hg hup => retried hc hoff (hgen ▸ hg) hup
    have hc := (h.record hother rfl).calls hrec hret cs only.1 ends.1
    exact ih hc.ending hstep hc.retried only.2 ends.2

/-- What `_disconnect` leaves of a receive that ended. -/
theorem Closing.torn {g : Nat} (h : Ending isServer r lost s) (receiving : Receiving g s) (silent : Silent r f)
    (err : Nat) : Closing isServer r lost ({ s with isReceiving := false }._disconnect err true f) := by
  have hpos : 0 < s.gen := receiving.gen.symm ▸ receiving.pos
  have he : Ending isServer r lost { s with isReceiving := false } := ⟨h.server, h.release, h.ends⟩
  exact (he.disconnectWith receiving.cleared silent hpos err).closing

theorem Closing.onRecv {g : Nat} (h : Ending isServer r lost s) (receiving : Receiving g s) (retried : Retried s)
    (silent : Silent r f) (err bytes : Nat) {packets : List (List (Call α))} (bad : Bool)
    (fail : Option Nat) (only : packets.all (Call.allWithin (· == r)) = true)
    (ends : packets.all (fun cs => cs.all Call.ends) = true) :
    Closing isServer r lost (s._on_recv g err bytes packets bad fail true f) := by
  unfold _on_recv
  split
  next => exact Closing.torn h receiving silent err
  next =>
    have hd := receiving.deliver packets
    have he := h.deliver receiving retried only ends
    dsimp only
    split
    next => exact Closing.torn he hd silent 16000
    next =>
      split
      next => exact Closing.torn he hd silent 0
      next hon =>
        have hon : (SessionTCP.deliver g packets s).isConnected = true := by
          simpa using hon
        have hcleared : Ending isServer r lost { SessionTCP.deliver g packets s with isReceiving := false } :=
          ⟨he.server, he.release, he.ends⟩
        have ht := hcleared.recv hd.cleared (retried_on hon) silent rfl fail
        exact ht.closing

theorem Closing.sendDone (h : Closing isServer r lost s) (sound : Sound 0 s) {sov g : Nat} (hin : (sov, g) ∈ s.sends)
    (err : Nat) (answers : List (Option Nat)) {onDisc : List (Call α)} (only : Call.allWithin (· == r) onDisc = true) :
    Closing isServer r lost ({ s with sends := s.sends.erase (sov, g) }._on_send err sov true (fun s => s.calls onDisc)
      fun s => (s.send none answers true fun s => s.calls onDisc).1) := by
  have he := h.ending
  have hdone := sound.sendDone hin
  have hside : Ending isServer r lost { s with sends := s.sends.erase (sov, g) } := ⟨he.server, he.release, he.ends⟩
  have hd := hside.onSend hdone (calls_silent only) err sov fun s' hs' h' hon' =>
    h'.sendBuf hs' (retried_on hon') none (Ending.sendSov (calls_silent only) answers)
  exact hd.closing

/-- One step, when users only call `disconnect(r)` and no `DisconnectEx` fails at once. -/
theorem Closing.step (h : Closing isServer r lost s) (sound : Sound 0 s) (server : isServer = true → r = false)
    {op : LifeOp α} (settled : s.Settled op) (only : op.within (· == r) = true) (ends : op.ends = true)
    (updates : op.updates = true ∨ lost) (hs : s.step op = some s') : Closing isServer r lost s' := by
  unfold SessionTCP.step at hs
  split at hs
  next => cases hs
  next =>
    cases op with
    | connect fail =>
      cases Option.some.inj hs
      exact h.connect fail
    | call c =>
      cases Option.some.inj hs
      exact h.call sound only ends
    | accept updated o =>
      simp only [SessionTCP.handle] at hs
      split at hs
      next hpos =>
        cases Option.some.inj hs
        have hserver : isServer = true := by
          rcases sound.side with hc | hc
          · exact h.ending.server.symm.trans hc.1
          · omega
        cases server hserver
        exact h.accept sound hpos updates only ends
      next => cases hs
    | conn err o =>
      simp only [SessionTCP.handle] at hs
      split at hs
      next hpos =>
        cases Option.some.inj hs
        exact h.connDone sound hpos settled only ends
      next => cases hs
    | disc onDisc =>
      simp only [SessionTCP.handle] at hs
      split at hs
      next hpos =>
        cases Option.some.inj hs
        exact h.discDone sound (calls_silent only) hpos
      next => cases hs
    | recv g err bytes packets bad fail ok onDisc =>
      simp only [SessionTCP.handle] at hs
      split at hs
      next hin =>
        cases Option.some.inj hs
        simp only [LifeOp.within, Bool.and_eq_true] at only
        simp only [LifeOp.ends, Bool.and_eq_true] at ends
        have he := h.ending
        have hside : Ending isServer r lost { s with recvs := s.recvs.erase g } := ⟨he.server, he.release, he.ends⟩
        rw [ends.2]
        exact Closing.onRecv hside (sound.recvDone hin) h.retried (calls_silent only.2) err bytes bad fail only.1 ends.1
      next => cases hs
    | send sov g err answers ok onDisc =>
      simp only [SessionTCP.handle] at hs
      split at hs
      next hin =>
        cases Option.some.inj hs
        simp only [LifeOp.ends] at ends
        rw [ends]
        exact h.sendDone sound hin err answers only
      next => cases hs

/-- A session that is off waits for a completion that will try the teardown again, or for `DisconnectEx`, or
`on_disc` was raised and it has parted. -/
theorem Closing.waits (h : Closing isServer r lost s) (sound : Sound 0 s) (posted : Posted s) (alive : s.crashed = false)
    (hgen : 0 < s.gen) (hoff : s.isConnected = false) :
    s.recvs ≠ [] ∨ s.sends ≠ [] ∨ 0 < s.discs ∨ ¬s.Quiet ∧ (Parted isServer r s ∨ lost) := by
  cases hd : s.isDisconnecting with
  | true =>
    rcases h.ending.ends hd with hone | hparted
    · exact Or.inr (Or.inr (Or.inl (by omega)))
    · exact Or.inr (Or.inr (Or.inr hparted))
  | false =>
    rcases h.retried alive hoff hgen hd with hsending | hreceiving
    · refine Or.inr (Or.inl fun hnone => ?_)
      have hcnt := sound.popCnt
      rw [hnone] at hcnt
      simp [SBuf.isSending, hcnt] at hsending
    · exact Or.inl (posted.receiving hreceiving)

end SessionTCP

end Ven
