import Ven.LifeRequests

namespace Ven

variable {α : Type}

namespace SessionTCP

/-- Between steps: the flags of a `WSARecv` and of a connection stand for a `WSARecv` that is posted. -/
structure Posted (s : SessionTCP α) : Prop where
  receiving : s.isReceiving = true → s.recvs ≠ []
  connected : s.isConnected = true → s.recvs ≠ []

variable {s s' : SessionTCP α} {f : SessionTCP α → SessionTCP α}

theorem still_calls (cs : List (Call α)) (s : SessionTCP α) : Still s (s.calls cs) :=
  still_frame.calls s cs (Call.allWithin_true cs)

theorem disconnectWith_off (kept : ∀ s, Still s (f s)) (s : SessionTCP α) (err : Nat) (ok : Bool) :
    (s._disconnect err ok f).isConnected = false := by
  unfold _disconnect
  dsimp only
  split
  next => rfl
  next =>
    split
    next => rfl
    next =>
      split
      next => exact (still_frame.onDisc kept _).off rfl
      next =>
        split
        next => rfl
        next => rfl

theorem Posted.of_steady (h : Posted s) (steady : Steady s s') (still : Still s s') : Posted s' := by
  refine ⟨fun hr => ?_, fun hon => ?_⟩
  · rw [steady.recvs]
    exact h.receiving (steady.receiving.symm.trans hr)
  · rw [steady.recvs]
    apply h.connected
    cases hoff : s.isConnected with
    | true => rfl
    | false =>
      rw [still.off hoff] at hon
      cases hon

/-- Nothing is posted when `_disconnect` ends a receive. -/
theorem posted_torn (sound : Sound 0 { s with isReceiving := false }) (kept : ∀ s, Still s (f s)) (gentle : Gentle f)
    (hgen : 0 < s.gen) (err : Nat) (ok : Bool) : Posted ({ s with isReceiving := false }._disconnect err ok f) := by
  have steady := sound.disconnectWith gentle hgen err ok
  have hoff := disconnectWith_off kept { s with isReceiving := false } err ok
  refine ⟨fun hr => ?_, fun hon => ?_⟩
  · have hidle := steady.receiving.symm.trans hr
    cases hidle
  · rw [hoff] at hon
    cases hon

/-- `recv` leaves the flags set only with a `WSARecv` posted. -/
theorem posted_recv (sound : Sound 0 s) (kept : ∀ s, Still s (f s)) (gentle : Gentle f) (hidle : s.isReceiving = false)
    (fail : Option Nat) (ok : Bool) : Posted (s.recv fail ok f) := by
  unfold SessionTCP.recv
  split
  next hoff =>
    refine ⟨fun hr => ?_, fun hon => ?_⟩
    · rw [hidle] at hr
      cases hr
    · rw [hon] at hoff
      cases hoff
  next hon =>
    have hon : s.isConnected = true := by
      simpa using hon
    dsimp only
    cases fail with
    | none => exact ⟨fun _ => List.cons_ne_nil _ _, fun _ => List.cons_ne_nil _ _⟩
    | some err =>
      have hcleared := sound.cleared (sound.idle hidle)
      exact posted_torn hcleared kept gentle (sound.opened hon) err ok

theorem posted_connInit (sound : Sound 0 s.opened) (o : Opening α) : Posted (s._on_conn_init o) := by
  have steady := sound.calls o.onConn
  rw [onConnInit_eq]
  exact posted_recv steady.sound (still_calls o.onDisc) (calls_off o.onDisc) (steady.receiving.trans s.opened_spec.isReceiving)
    o.fail o.ok

theorem posted_onRecv {g : Nat} (receiving : Receiving g s) (kept : ∀ s, Still s (f s)) (gentle : Gentle f)
    (err bytes : Nat) (packets : List (List (Call α))) (bad : Bool) (fail : Option Nat) (ok : Bool) :
    Posted (s._on_recv g err bytes packets bad fail ok f) := by
  unfold _on_recv
  split
  next => exact posted_torn receiving.cleared kept gentle (receiving.gen.symm ▸ receiving.pos) err ok
  next =>
    have hd := receiving.deliver packets
    have hpos : 0 < (SessionTCP.deliver g packets s).gen := hd.gen.symm ▸ hd.pos
    dsimp only
    split
    next => exact posted_torn hd.cleared kept gentle hpos 16000 ok
    next =>
      split
      next => exact posted_torn hd.cleared kept gentle hpos 0 ok
      next => exact posted_recv hd.cleared kept gentle rfl fail ok

theorem Posted.connect (h : Posted s) (fail : Option Nat) : Posted (s.connect fail).1 := by
  unfold SessionTCP.connect
  split
  next => exact h
  next =>
    split
    next => exact h
    next =>
      split
      next => exact h
      next =>
        cases fail with
        | none => exact ⟨h.receiving, h.connected⟩
        | some err => exact ⟨h.receiving, h.connected⟩

theorem Posted.accept (h : Posted s) (sound : Sound 0 s) (hpos : 0 < s.pooled) (updated : Bool) (o : Opening α) :
    Posted ({ s with pooled := s.pooled - 1 }._on_accept updated o) := by
  obtain ⟨hrecvs, hsends, hdiscs, hpooled⟩ := sound.inPool hpos
  have ht := sound.leavePool hpos
  unfold _on_accept
  split
  next =>
    have hs : Posted { s with pooled := s.pooled - 1 } := ⟨h.receiving, h.connected⟩
    exact hs.of_steady (ht.disconnect (calls_off o.onDisc) false) (still_frame.disconnect (still_calls o.onDisc) _ rfl)
  next => exact posted_connInit (ht.openedUp hrecvs hsends hdiscs hpooled) o

theorem Posted.connDone (h : Posted s) (sound : Sound 0 s) (hpos : 0 < s.conns) (err : Nat) (o : Opening α)
    (settled : err = 0 → s.recvs = [] ∧ s.sends = [] ∧ s.discs = 0) :
    Posted ({ s with conns := s.conns - 1 }._on_conn err o) := by
  have hside : s.isServer = false ∧ s.pooled = 0 := by
    rcases sound.side with hc | hc
    · omega
    · exact hc
  have ht := sound.connecting false (s.conns - 1) (Or.inr hside)
  unfold _on_conn
  dsimp only
  split
  next =>
    have hr : Sound 0 (SessionTCP.record { s with isConnecting := false, conns := s.conns - 1 } (.refused err)) :=
      ht.record (e := .refused err) nofun rfl rfl trivial
    have hs : Posted (SessionTCP.record { s with isConnecting := false, conns := s.conns - 1 } (.refused err)) :=
      ⟨h.receiving, h.connected⟩
    exact hs.of_steady (hr.calls o.onDisc) (still_calls o.onDisc _)
  next herr =>
    obtain ⟨hrecvs, hsends, hdiscs⟩ := settled (by omega)
    exact posted_connInit (ht.openedUp hrecvs hsends hdiscs hside.2) o

theorem Posted.step (h : Posted s) (sound : Sound 0 s) {op : LifeOp α} (settled : s.Settled op)
    (hs : s.step op = some s') : Posted s' := by
  unfold SessionTCP.step at hs
  split at hs
  next => cases hs
  next =>
    cases op with
    | connect fail =>
      cases Option.some.inj hs
      exact h.connect fail
    | call c =>
      cases Option.some.inj hs
      exact h.of_steady (sound.call c) (still_frame.call s c c.within_true)
    | accept updated o =>
      simp only [SessionTCP.handle] at hs
      split at hs
      next hpos =>
        cases Option.some.inj hs
        exact h.accept sound hpos updated o
      next => cases hs
    | conn err o =>
      simp only [SessionTCP.handle] at hs
      split at hs
      next hpos =>
        cases Option.some.inj hs
        exact h.connDone sound hpos err o settled
      next => cases hs
    | disc onDisc =>
      simp only [SessionTCP.handle] at hs
      split at hs
      next hpos =>
        cases Option.some.inj hs
        have ht : Posted { s with discs := s.discs - 1 } := ⟨h.receiving, h.connected⟩
        exact ht.of_steady (sound.discDone (calls_off onDisc) hpos) (still_frame.onDisc (still_calls onDisc) _)
      next => cases hs
    | recv g err bytes packets bad fail ok onDisc =>
      simp only [SessionTCP.handle] at hs
      split at hs
      next hin =>
        cases Option.some.inj hs
        exact posted_onRecv (sound.recvDone hin) (still_calls onDisc) (calls_off onDisc) err bytes packets bad fail ok
      next => cases hs
    | send sov g err answers ok onDisc =>
      simp only [SessionTCP.handle] at hs
      split at hs
      next hin =>
        cases Option.some.inj hs
        have ht : Posted { s with sends := s.sends.erase (sov, g) } := ⟨h.receiving, h.connected⟩
        refine ht.of_steady ?_ ?_
        · exact (sound.sendDone hin).onSend (calls_off onDisc) err sov ok fun s' h' =>
            h'.send (calls_off onDisc) none answers ok
        · exact still_frame.onSend (still_calls onDisc) _ err sov ok fun s =>
            still_frame.send (still_calls onDisc) s none answers ok
      next => cases hs

end SessionTCP

end Ven
