import Ven.LifeRuns

namespace Ven

variable {α : Type}

mutual

/-- Every `disconnect` among the calls, in callbacks too, has such an argument. -/
def Call.within (p : Bool → Bool) : Call α → Bool
  | .send _ _ _ onDisc => Call.allWithin p onDisc
  | .disconnect isRelease onDisc => p isRelease && Call.allWithin p onDisc

def Call.allWithin (p : Bool → Bool) : List (Call α) → Bool
  | [] => true
  | c :: cs => c.within p && Call.allWithin p cs

end

def Opening.within (p : Bool → Bool) (o : Opening α) : Bool := Call.allWithin p o.onConn && Call.allWithin p o.onDisc

/-- Every `disconnect` the users call in the step has such an argument. -/
def LifeOp.within (p : Bool → Bool) : LifeOp α → Bool
  | .connect _ => true
  | .call c => c.within p
  | .accept _ o => o.within p
  | .conn _ o => o.within p
  | .disc onDisc => Call.allWithin p onDisc
  | .recv _ _ _ packets _ _ _ onDisc => packets.all (Call.allWithin p) && Call.allWithin p onDisc
  | .send _ _ _ _ _ onDisc => Call.allWithin p onDisc

mutual

theorem Call.within_true : ∀ c : Call α, c.within (fun _ => true) = true
  | .send _ _ _ onDisc => by
    simp only [Call.within]
    exact Call.allWithin_true onDisc
  | .disconnect _ onDisc => by
    simp only [Call.within, Bool.true_and]
    exact Call.allWithin_true onDisc

theorem Call.allWithin_true : ∀ cs : List (Call α), Call.allWithin (fun _ => true) cs = true
  | [] => by simp only [Call.allWithin]
  | c :: cs => by
    simp only [Call.allWithin, Bool.and_eq_true]
    exact ⟨Call.within_true c, Call.allWithin_true cs⟩

end

theorem Opening.within_true (o : Opening α) : o.within (fun _ => true) = true := by
  simp only [Opening.within, Call.allWithin_true, Bool.and_true]

theorem LifeOp.within_true (op : LifeOp α) : op.within (fun _ => true) = true := by
  cases op with
  | connect fail => rfl
  | call c => exact c.within_true
  | accept updated o => exact o.within_true
  | conn err o => exact o.within_true
  | disc onDisc => exact Call.allWithin_true onDisc
  | recv g err bytes packets bad fail ok onDisc =>
    simp only [LifeOp.within, Bool.and_eq_true]
    exact ⟨List.all_eq_true.mpr fun cs _ => Call.allWithin_true cs, Call.allWithin_true onDisc⟩
  | send sov g err answers ok onDisc => exact Call.allWithin_true onDisc

namespace SessionTCP

/-- A relation that every piece of a handler keeps, `_on_conn_init` apart, while the users call `disconnect` with
such arguments only. -/
structure Frame (p : Bool → Bool) (R : SessionTCP α → SessionTCP α → Prop) : Prop where
  refl : ∀ s, R s s
  trans : ∀ s t u, R s t → R t u → R s u
  record : ∀ s e, e ≠ .conn → R s (s.record e)
  off : ∀ s dovErr, R s { s with dovErr := dovErr, isConnected := false }
  fields : ∀ s isReceiving isDisconnecting isForceDisconnecting sbuf pool rbuf recvs sends discs crashed, R s { s with
    isReceiving := isReceiving
    isDisconnecting := isDisconnecting
    isForceDisconnecting := isForceDisconnecting
    sbuf := sbuf
    pool := pool
    rbuf := rbuf
    recvs := recvs
    sends := sends
    discs := discs
    crashed := crashed }
  release : ∀ s r, p r = true → R s { s with isRelease := r }
  delete : ∀ s, s.isRelease = true → R s { s with deleted := true }
  giveBack : ∀ s, s.isServer = true → s.isRelease = false → R s { s with pooled := s.pooled + 1 }

variable {p : Bool → Bool} {R : SessionTCP α → SessionTCP α → Prop} {f : SessionTCP α → SessionTCP α}

theorem Frame.onDisc (h : Frame p R) (kept : ∀ s, R s (f s)) (s : SessionTCP α) : R s (s._on_disc f) := by
  let bare : SessionTCP α := { s with
    sbuf := (s.sbuf.uninit s.pool).1
    pool := (s.sbuf.uninit s.pool).2
    rbuf := false }
  have hbare : R s bare := h.fields s s.isReceiving s.isDisconnecting s.isForceDisconnecting (s.sbuf.uninit s.pool).1
    (s.sbuf.uninit s.pool).2 false s.recvs s.sends s.discs s.crashed
  have hraised : R bare bare.raised := h.record bare (.disc _ _ _) nofun
  have hcalled : R s (f bare.raised) := h.trans s _ _ (h.trans s _ _ hbare hraised) (kept bare.raised)
  have hevent : s._on_disc f =
      (if (f bare.raised).isRelease then { f bare.raised with deleted := true }
      else if (f bare.raised).isServer then { f bare.raised with pooled := (f bare.raised).pooled + 1 }
      else f bare.raised) := rfl
  rw [hevent]
  split
  next hr => exact h.trans s _ _ hcalled (h.delete _ hr)
  next hr =>
    split
    next hserver => exact h.trans s _ _ hcalled (h.giveBack _ hserver (Bool.eq_false_iff.mpr hr))
    next => exact hcalled

theorem Frame.disconnectWith (h : Frame p R) (kept : ∀ s, R s (f s)) (s : SessionTCP α) (err : Nat) (ok : Bool) :
    R s (s._disconnect err ok f) := by
  let off : SessionTCP α := { s.record (.disconnect err) with
    dovErr := if s.isConnected then err else s.dovErr
    isConnected := false }
  have hoff : R s off := h.trans s _ _ (h.record s (.disconnect err) nofun) (h.off _ _)
  have hdown : ∀ discs, R s { off with isDisconnecting := true, discs := discs } := fun discs =>
    h.trans s _ _ hoff (h.fields off off.isReceiving true off.isForceDisconnecting off.sbuf off.pool off.rbuf off.recvs
      off.sends discs off.crashed)
  unfold _disconnect
  dsimp only
  split
  next => exact hoff
  next =>
    split
    next => exact hoff
    next =>
      split
      next => exact h.trans s _ _ (hdown s.discs) (h.onDisc kept _)
      next =>
        split
        next => exact hdown (s.discs + 1)
        next => exact hdown s.discs

theorem Frame.disconnect (h : Frame p R) (kept : ∀ s, R s (f s)) (s : SessionTCP α) {isRelease : Bool}
    (hp : p isRelease = true) : R s (s.disconnect isRelease f) := by
  let asked : SessionTCP α := { s with isRelease := isRelease }
  have hasked : R s asked := h.release s isRelease hp
  unfold SessionTCP.disconnect
  dsimp only
  split
  next => exact hasked
  next =>
    split
    next => exact hasked
    next =>
      have hforce : R asked { asked with isForceDisconnecting := true } := h.fields asked asked.isReceiving
        asked.isDisconnecting true asked.sbuf asked.pool asked.rbuf asked.recvs asked.sends asked.discs asked.crashed
      exact h.trans s _ _ (h.trans s _ _ hasked hforce) (h.disconnectWith kept _ 0 true)

/-- The send buffer and its pool. -/
theorem Frame.buffers (h : Frame p R) (s : SessionTCP α) (sbuf : SBuf) (pool : SOVPool α) (crashed : Bool) :
    R s { s with sbuf := sbuf, pool := pool, crashed := crashed } :=
  h.fields s s.isReceiving s.isDisconnecting s.isForceDisconnecting sbuf pool s.rbuf s.recvs s.sends s.discs crashed

theorem Frame.sendBuf (h : Frame p R) (s : SessionTCP α) (buf : Option α) {post : SessionTCP α → Nat → SessionTCP α × Bool}
    (posted : ∀ s sov, R s (post s sov).1) : R s (s.sendBuf buf post).1 := by
  unfold SessionTCP.sendBuf
  split
  next => exact h.refl s
  next =>
    split
    next => exact h.buffers s s.sbuf s.pool true
    next pool _ =>
      dsimp only
      split
      next => exact h.buffers s s.sbuf pool true
      next sbuf q _ => exact h.buffers s sbuf q s.crashed
      next sov sbuf q _ => exact h.trans s _ _ (h.buffers s sbuf q s.crashed) (posted _ sov)

theorem Frame.onSend (h : Frame p R) (kept : ∀ s, R s (f s)) (s : SessionTCP α) (err sov : Nat) (ok : Bool)
    {resend : SessionTCP α → SessionTCP α} (resent : ∀ s, R s (resend s)) : R s (s._on_send err sov ok f resend) := by
  unfold _on_send
  dsimp only
  split
  next => exact h.buffers s s.sbuf _ true
  next sbuf pool _ =>
    have hpushed := h.buffers s sbuf pool s.crashed
    split
    next => exact h.buffers s sbuf pool true
    next =>
      split
      next => exact h.trans s _ _ hpushed (h.disconnectWith kept _ err ok)
      next =>
        split
        next => exact h.trans s _ _ hpushed (resent _)
        next => exact hpushed

theorem Frame.sendSov (h : Frame p R) (kept : ∀ s, R s (f s)) (ok : Bool) (answers : List (Option Nat)) :
    ∀ (s : SessionTCP α) (sov : Nat), R s (sendSov ok f answers s sov).1 := by
  have inflight : ∀ (s : SessionTCP α) (sov : Nat), R s { s with sends := (sov, s.gen) :: s.sends } := fun s sov =>
    h.fields s s.isReceiving s.isDisconnecting s.isForceDisconnecting s.sbuf s.pool s.rbuf s.recvs
      ((sov, s.gen) :: s.sends) s.discs s.crashed
  induction answers with
  | nil => exact inflight
  | cons answer answers ih =>
    intro s sov
    cases answer with
    | none => exact inflight s sov
    | some err =>
      simp only [SessionTCP.sendSov]
      exact h.onSend kept s err sov ok fun s => h.sendBuf s none ih

theorem Frame.send (h : Frame p R) (kept : ∀ s, R s (f s)) (s : SessionTCP α) (buf : Option α)
    (answers : List (Option Nat)) (ok : Bool) : R s (s.send buf answers ok f).1 :=
  h.sendBuf s buf (h.sendSov kept ok answers)

mutual

theorem Frame.call (h : Frame p R) (s : SessionTCP α) : ∀ c : Call α, c.within p = true → R s (s.call c)
  | .send buf answers ok onDisc, hp => by
    simp only [SessionTCP.call]
    simp only [Call.within] at hp
    exact h.send (fun s => Frame.calls h s onDisc hp) s buf answers ok
  | .disconnect isRelease onDisc, hp => by
    simp only [SessionTCP.call]
    simp only [Call.within, Bool.and_eq_true] at hp
    exact h.disconnect (fun s => Frame.calls h s onDisc hp.2) s hp.1

theorem Frame.calls (h : Frame p R) (s : SessionTCP α) : ∀ cs : List (Call α), Call.allWithin p cs = true → R s (s.calls cs)
  | [], _ => by
    simp only [SessionTCP.calls]
    exact h.refl s
  | c :: cs, hp => by
    simp only [SessionTCP.calls]
    simp only [Call.allWithin, Bool.and_eq_true] at hp
    exact h.trans s _ _ (Frame.call h s c hp.1) (Frame.calls h (s.call c) cs hp.2)

end

theorem Frame.recv (h : Frame p R) (kept : ∀ s, R s (f s)) (s : SessionTCP α) (fail : Option Nat) (ok : Bool) :
    R s (s.recv fail ok f) := by
  have posting : ∀ isReceiving recvs, R s { s with isReceiving := isReceiving, recvs := recvs } := fun isReceiving recvs =>
    h.fields s isReceiving s.isDisconnecting s.isForceDisconnecting s.sbuf s.pool s.rbuf recvs s.sends s.discs s.crashed
  unfold SessionTCP.recv
  split
  next => exact h.refl s
  next =>
    dsimp only
    cases fail with
    | none => exact posting true (s.gen :: s.recvs)
    | some err => exact h.trans s _ _ (posting false s.recvs) (h.disconnectWith kept _ err ok)

theorem Frame.deliver (h : Frame p R) (g : Nat) {packets : List (List (Call α))}
    (hp : packets.all (Call.allWithin p) = true) (s : SessionTCP α) : R s (deliver g packets s) := by
  induction packets generalizing s with
  | nil => exact h.refl s
  | cons cs packets ih =>
    simp only [List.all_cons, Bool.and_eq_true] at hp
    simp only [SessionTCP.deliver]
    have hrecord := h.record s (.recv g) (by simp)
    exact h.trans s _ _ (h.trans s _ _ hrecord (h.calls _ cs hp.1)) (ih hp.2 _)

/-- `is_receiving_` is cleared before the session is torn down. -/
theorem Frame.torn (h : Frame p R) (kept : ∀ s, R s (f s)) (s : SessionTCP α) (err : Nat) (ok : Bool) :
    R s ({ s with isReceiving := false }._disconnect err ok f) := by
  have ended : R s { s with isReceiving := false } := h.fields s false s.isDisconnecting s.isForceDisconnecting s.sbuf
    s.pool s.rbuf s.recvs s.sends s.discs s.crashed
  exact h.trans s _ _ ended (h.disconnectWith kept _ err ok)

/-- `_on_recv` behind its packets. -/
theorem Frame.received (h : Frame p R) (kept : ∀ s, R s (f s)) (s : SessionTCP α) (fail : Option Nat) (ok : Bool) :
    R s (if !s.isConnected then { s with isReceiving := false }._disconnect 0 ok f
      else { s with isReceiving := false }.recv fail ok f) := by
  split
  next => exact h.torn kept s 0 ok
  next =>
    have ended : R s { s with isReceiving := false } := h.fields s false s.isDisconnecting s.isForceDisconnecting s.sbuf
      s.pool s.rbuf s.recvs s.sends s.discs s.crashed
    exact h.trans s _ _ ended (h.recv kept _ fail ok)

theorem Frame.onRecv (h : Frame p R) (kept : ∀ s, R s (f s)) (s : SessionTCP α) (g err bytes : Nat)
    {packets : List (List (Call α))} (hp : packets.all (Call.allWithin p) = true) (bad : Bool) (fail : Option Nat)
    (ok : Bool) : R s (s._on_recv g err bytes packets bad fail ok f) := by
  unfold _on_recv
  split
  next => exact h.torn kept s err ok
  next =>
    have hd := h.deliver g hp s
    dsimp only
    split
    next => exact h.trans s _ _ hd (h.torn kept _ 16000 ok)
    next => exact h.trans s _ _ hd (h.received kept _ fail ok)

/-- Steps other than `connect` and those that may bring up a connection. -/
theorem Frame.step (h : Frame p R) {s s' : SessionTCP α} {op : LifeOp α} (hp : op.within p = true)
    (hs : s.step op = some s') : (R s s' ∧ ∀ err o, op ≠ .conn err o) ∨ (∃ fail, op = .connect fail ∧ s' = (s.connect fail).1) ∨
      (∃ updated o, op = .accept updated o ∧ 0 < s.pooled ∧
        s' = { s with pooled := s.pooled - 1 }._on_accept updated o) ∨
      ∃ err o, op = .conn err o ∧ 0 < s.conns ∧ s' = { s with conns := s.conns - 1 }._on_conn err o := by
  have taken : ∀ recvs sends discs, R s { s with recvs := recvs, sends := sends, discs := discs } := fun recvs sends discs =>
    h.fields s s.isReceiving s.isDisconnecting s.isForceDisconnecting s.sbuf s.pool s.rbuf recvs sends discs s.crashed
  unfold SessionTCP.step at hs
  split at hs
  next => cases hs
  next =>
    cases op with
    | connect fail =>
      cases Option.some.inj hs
      exact Or.inr (Or.inl ⟨fail, rfl, rfl⟩)
    | call c =>
      cases Option.some.inj hs
      exact Or.inl ⟨h.call s c hp, by simp⟩
    | accept updated o =>
      simp only [handle] at hs
      split at hs
      next hpos =>
        cases Option.some.inj hs
        exact Or.inr (Or.inr (Or.inl ⟨updated, o, rfl, hpos, rfl⟩))
      next => cases hs
    | conn err o =>
      simp only [handle] at hs
      split at hs
      next hpos =>
        cases Option.some.inj hs
        exact Or.inr (Or.inr (Or.inr ⟨err, o, rfl, hpos, rfl⟩))
      next => cases hs
    | disc onDisc =>
      simp only [handle] at hs
      split at hs
      next =>
        cases Option.some.inj hs
        have hdisc := h.onDisc (fun s => h.calls s onDisc hp) { s with discs := s.discs - 1 }
        exact Or.inl ⟨h.trans s _ _ (taken s.recvs s.sends (s.discs - 1)) hdisc, by simp⟩
      next => cases hs
    | recv g err bytes packets bad fail ok onDisc =>
      simp only [handle] at hs
      split at hs
      next =>
        cases Option.some.inj hs
        simp only [LifeOp.within, Bool.and_eq_true] at hp
        have hrecv := h.onRecv (fun s => h.calls s onDisc hp.2) { s with recvs := s.recvs.erase g } g err bytes hp.1 bad
          fail ok
        exact Or.inl ⟨h.trans s _ _ (taken (s.recvs.erase g) s.sends s.discs) hrecv, by simp⟩
      next => cases hs
    | send sov g err answers ok onDisc =>
      simp only [handle] at hs
      split at hs
      next =>
        cases Option.some.inj hs
        have kept := fun s => h.calls s onDisc hp
        have hsend := h.onSend kept { s with sends := s.sends.erase (sov, g) } err sov ok fun s => h.send kept s none
          answers ok
        exact Or.inl ⟨h.trans s _ _ (taken s.recvs (s.sends.erase (sov, g)) s.discs) hsend, by simp⟩
      next => cases hs

/-- `_on_conn_init` as far as `on_conn` is called: the relation must hold for that part. -/
theorem Frame.connInit (h : Frame p R) {s : SessionTCP α} {o : Opening α} (hp : o.within p = true) (hopened : R s s.opened) :
    R s (s._on_conn_init o) := by
  simp only [Opening.within, Bool.and_eq_true] at hp
  rw [onConnInit_eq]
  exact h.trans s _ _ (h.trans s _ _ hopened (h.calls _ o.onConn hp.1)) (h.recv (fun s => h.calls s o.onDisc hp.2) _ o.fail
    o.ok)

end SessionTCP

end Ven
