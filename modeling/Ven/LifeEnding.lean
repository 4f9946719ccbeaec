import Ven.LifePosted

namespace Ven

variable {α : Type}

/-- `DisconnectEx` succeeds or pends. -/
def Call.ends : Call α → Bool
  | .send _ _ ok _ => ok
  | .disconnect _ _ => true

namespace SessionTCP

/-- Deleted after `disconnect(true)`; else a server session is back in its pool. -/
def Parted (isServer r : Bool) (s : SessionTCP α) : Prop :=
  if r then s.deleted = true else isServer = true → s.pooled = 1

/-- A session whose teardown was decided waits for `DisconnectEx`, or `on_disc` was raised and the session has
parted, unless it was `lost`. -/
structure Ending (isServer r : Bool) (lost : Prop) (s : SessionTCP α) : Prop where
  server : s.isServer = isServer
  release : s.isRelease = r
  ends : s.isDisconnecting = true → s.discs = 1 ∨ ¬s.Quiet ∧ (Parted isServer r s ∨ lost)

/-- A session that is off and whose teardown was not decided has a completion that will try again. -/
def Retried (s : SessionTCP α) : Prop :=
  s.crashed = false → s.isConnected = false → 0 < s.gen → s.isDisconnecting = false →
    s.sbuf.isSending = true ∨ s.isReceiving = true

structure Tended (isServer r : Bool) (lost : Prop) (s s' : SessionTCP α) : Prop where
  ending : Ending isServer r lost s'
  retried : Retried s'
  crashed : s.crashed = true → s'.crashed = true

/-- On a session that is off, the callback changes nothing. -/
def Silent (r : Bool) (f : SessionTCP α → SessionTCP α) : Prop :=
  ∀ s, s.isConnected = false → s.isRelease = r → f s = s

variable {isServer r ok : Bool} {lost : Prop} {s s' t : SessionTCP α} {n : Nat} {f : SessionTCP α → SessionTCP α}

theorem calls_silent {cs : List (Call α)} (only : Call.allWithin (· == r) cs = true) : Silent r (fun s : SessionTCP α => s.calls cs) := by
  induction cs with
  | nil =>
    intro s _ _
    simp only [calls]
  | cons c cs ih =>
    intro s hoff hr
    simp only [Call.allWithin, Bool.and_eq_true] at only
    simp only [calls]
    have hcall : s.call c = s := by
      cases c with
      | send buf answers ok onDisc => simp [call, send, sendBuf, hoff]
      | disconnect isRelease onDisc =>
        have hflag := only.1
        simp only [Call.within, Bool.and_eq_true, beq_iff_eq] at hflag
        have hset : s.call (.disconnect isRelease onDisc) = { s with isRelease := isRelease } := by
          simp [call, disconnect, hoff]
        rw [hset, hflag.1, ← hr]
    rw [hcall]
    exact ih only.2 s hoff hr

theorem quiet_record {e : Event} (he : e ≠ .conn) (hdisc : e.isDisc = false) (s : SessionTCP α) :
    (s.record e).Quiet ↔ s.Quiet := by
  unfold Quiet
  rw [since_record he, List.countP_append, List.countP_singleton, hdisc]
  simp

theorem Ending.record (h : Ending isServer r lost s) {e : Event} (he : e ≠ .conn) (hdisc : e.isDisc = false) :
    Ending isServer r lost (s.record e) := by
  refine ⟨h.server, h.release, fun hdown => (h.ends hdown).imp_right fun hend => ?_⟩
  exact ⟨fun hq => hend.1 ((quiet_record he hdisc s).mp hq), hend.2⟩

theorem raised_loud (s : SessionTCP α) : ¬s.raised.Quiet := by
  unfold raised Quiet
  rw [since_record (e := .disc _ _ _) nofun, List.countP_append]
  simp [Event.isDisc]

/-- `_on_disc` of a session that is not in the pool. -/
theorem parts (silent : Silent r f) (hserver : s.isServer = isServer) (hrelease : s.isRelease = r)
    (hoff : s.isConnected = false) (hdown : s.isDisconnecting = true) (hpooled : s.pooled = 0) :
    Tended isServer r lost s (s._on_disc f) := by
  let bare : SessionTCP α := { s with
    sbuf := (s.sbuf.uninit s.pool).1
    pool := (s.sbuf.uninit s.pool).2
    rbuf := false }
  have hcall : f bare.raised = bare.raised := silent bare.raised hoff hrelease
  have hevent : s._on_disc f =
      (if bare.raised.isRelease then { bare.raised with deleted := true }
      else if bare.raised.isServer then { bare.raised with pooled := bare.raised.pooled + 1 }
      else bare.raised) := by
    unfold _on_disc
    dsimp only
    rw [hcall]
  have busy : ∀ {P : Prop}, s.isDisconnecting = false → P := by
    intro P hup
    rw [hdown] at hup
    cases hup
  have done : ∀ pooled deleted, Parted isServer r { bare.raised with pooled := pooled, deleted := deleted } →
      Tended isServer r lost s { bare.raised with pooled := pooled, deleted := deleted } := by
    intro pooled deleted parted
    exact ⟨⟨hserver, hrelease, fun _ => Or.inr ⟨raised_loud bare, Or.inl parted⟩⟩, fun _ _ _ => busy, fun hc => hc⟩
  rw [hevent]
  split
  next hr =>
    have hr : r = true := hrelease.symm.trans hr
    refine done s.pooled true ?_
    simp [Parted, hr]
  next hr =>
    have hr : r = false := hrelease.symm.trans (Bool.eq_false_iff.mpr hr)
    split
    next =>
      refine done (s.pooled + 1) s.deleted ?_
      simp [Parted, hr, hpooled]
    next hclient =>
      have hclient : isServer = false := hserver.symm.trans (Bool.eq_false_iff.mpr hclient)
      refine done s.pooled s.deleted ?_
      simp [Parted, hr, hclient]

theorem Ending.disconnectWith (h : Ending isServer r lost s) (sound : Sound 0 s) (silent : Silent r f)
    (hgen : 0 < s.gen) (err : Nat) : Tended isServer r lost s (s._disconnect err true f) := by
  have he := h.record (e := .disconnect err) nofun rfl
  unfold _disconnect
  dsimp only
  split
  next hbusy =>
    refine ⟨⟨he.server, he.release, he.ends⟩, fun _ _ _ _ => ?_, fun hc => hc⟩
    simpa using hbusy
  next =>
    split
    next hdown =>
      refine ⟨⟨he.server, he.release, he.ends⟩, fun _ _ _ hup => ?_, fun hc => hc⟩
      change s.isDisconnecting = true at hdown
      change s.isDisconnecting = false at hup
      rw [hdown] at hup
      cases hup
    next hup =>
      have hup : s.isDisconnecting = false := Bool.eq_false_iff.mpr hup
      obtain ⟨hdiscs, hrest⟩ := sound.up hup
      have hpooled := (hrest hgen).1
      split
      next =>
        let down : SessionTCP α := { s.record (.disconnect err) with
          dovErr := if s.isConnected then err else s.dovErr
          isConnected := false
          isDisconnecting := true }
        have hp : Tended isServer r lost down (down._on_disc f) := parts silent h.server h.release rfl rfl hpooled
        exact ⟨hp.ending, hp.retried, hp.crashed⟩
      next =>
        refine ⟨⟨h.server, h.release, fun _ => Or.inl ?_⟩, fun _ _ _ => nofun, fun hc => hc⟩
        change s.discs + 1 = 1
        omega

theorem Ending.disconnect (h : Ending isServer r lost s) (sound : Sound 0 s) (retried : Retried s) (silent : Silent r f) :
    Tended isServer r lost s (s.disconnect r f) := by
  unfold SessionTCP.disconnect
  dsimp only
  split
  next => exact ⟨⟨h.server, rfl, h.ends⟩, retried, fun hc => hc⟩
  next hon =>
    split
    next => exact ⟨⟨h.server, rfl, h.ends⟩, retried, fun hc => hc⟩
    next =>
      have hon : s.isConnected = true := by
        simpa using hon
      have hmarked : Ending isServer r lost { s with isRelease := r, isForceDisconnecting := true } :=
        ⟨h.server, rfl, h.ends⟩
      have hd := hmarked.disconnectWith sound.frame silent (sound.opened hon) 0
      exact ⟨hd.ending, hd.retried, hd.crashed⟩

/-- A session that is connected, or crashed, has nothing to retry. -/
theorem retried_on (hon : s.isConnected = true) : Retried s := by
  intro _ hoff
  rw [hon] at hoff
  cases hoff

theorem Ending.sendBuf (h : Ending isServer r lost s) (sound : Sound 0 s) (retried : Retried s) (buf : Option α)
    {post : SessionTCP α → Nat → SessionTCP α × Bool}
    (posted : ∀ s' sov, Sound 1 s' → Ending isServer r lost s' → s'.isConnected = true →
      Tended isServer r lost s' (post s' sov).1) :
    Tended isServer r lost s (s.sendBuf buf post).1 := by
  unfold SessionTCP.sendBuf
  split
  next => exact ⟨h, retried, fun hc => hc⟩
  next hon =>
    have hon : s.isConnected = true := by
      simpa using hon
    split
    next => exact ⟨⟨h.server, h.release, h.ends⟩, retried_on hon, fun _ => rfl⟩
    next pool hpush =>
      dsimp only
      split
      next => exact ⟨⟨h.server, h.release, h.ends⟩, retried_on hon, fun _ => rfl⟩
      next sbuf q hpop => exact ⟨⟨h.server, h.release, h.ends⟩, retried_on hon, fun hc => hc⟩
      next sov sbuf q hpop =>
        obtain ⟨hcnt, hpool⟩ := SBuf.pop_some hpop
        have hp := posted _ sov (sound.popped hon hcnt hpool q) ⟨h.server, h.release, h.ends⟩ hon
        exact ⟨hp.ending, hp.retried, hp.crashed⟩

theorem Ending.onSend (h : Ending isServer r lost s) (sound : Sound 1 s) (silent : Silent r f) (err sov : Nat)
    {resend : SessionTCP α → SessionTCP α}
    (resent : ∀ s', Sound 0 s' → Ending isServer r lost s' → s'.isConnected = true →
      Tended isServer r lost s' (resend s')) :
    Tended isServer r lost s (s._on_send err sov true f resend) := by
  have hgen := sound.sentOpened
  unfold _on_send
  dsimp only
  split
  next hnone => exact absurd hnone (sound.pushable _ sov)
  next sbuf pool hpush =>
    have hs := sound.pushed hpush
    have he : Ending isServer r lost { s with sbuf := sbuf, pool := pool } := ⟨h.server, h.release, h.ends⟩
    split
    next => exact ⟨⟨h.server, h.release, h.ends⟩, nofun, fun _ => rfl⟩
    next hasToSend _ =>
      split
      next =>
        have hd := he.disconnectWith hs silent hgen err
        exact ⟨hd.ending, hd.retried, hd.crashed⟩
      next hon =>
        have hon : s.isConnected = true := by
          simp only [not_or, Bool.not_eq_false] at hon
          exact hon.2
        split
        next =>
          have hr := resent _ hs he hon
          exact ⟨hr.ending, hr.retried, hr.crashed⟩
        next => exact ⟨he, retried_on hon, fun hc => hc⟩

theorem Ending.sendSov (silent : Silent r f) (answers : List (Option Nat)) :
    ∀ (s : SessionTCP α) (sov : Nat), Sound 1 s → Ending isServer r lost s → s.isConnected = true →
      Tended isServer r lost s (sendSov true f answers s sov).1 := by
  induction answers with
  | nil =>
    intro s sov _ h hon
    exact ⟨⟨h.server, h.release, h.ends⟩, retried_on hon, fun hc => hc⟩
  | cons answer answers ih =>
    intro s sov sound h hon
    cases answer with
    | none => exact ⟨⟨h.server, h.release, h.ends⟩, retried_on hon, fun hc => hc⟩
    | some err =>
      simp only [SessionTCP.sendSov]
      exact h.onSend sound silent err sov fun s' hs' h' hon' => h'.sendBuf hs' (retried_on hon') none ih

theorem Ending.call (h : Ending isServer r lost s) (sound : Sound 0 s) (retried : Retried s) (c : Call α)
    (only : c.within (· == r) = true) (ends : c.ends = true) : Tended isServer r lost s (s.call c) := by
  cases c with
  | send buf answers ok onDisc =>
    simp only [SessionTCP.call]
    simp only [Call.within] at only
    simp only [Call.ends] at ends
    rw [ends]
    exact h.sendBuf sound retried buf (Ending.sendSov (calls_silent only) answers)
  | disconnect isRelease onDisc =>
    simp only [SessionTCP.call]
    simp only [Call.within, Bool.and_eq_true, beq_iff_eq] at only
    rw [only.1]
    exact h.disconnect sound retried (calls_silent only.2)

theorem Ending.calls (h : Ending isServer r lost s) (sound : Sound 0 s) (retried : Retried s) (cs : List (Call α))
    (only : Call.allWithin (· == r) cs = true) (ends : cs.all Call.ends = true) : Tended isServer r lost s (s.calls cs) := by
  induction cs generalizing s with
  | nil =>
    simp only [SessionTCP.calls]
    exact ⟨h, retried, fun hc => hc⟩
  | cons c cs ih =>
    simp only [SessionTCP.calls]
    simp only [Call.allWithin, Bool.and_eq_true] at only
    simp only [List.all_cons, Bool.and_eq_true] at ends
    have hc := h.call sound retried c only.1 ends.1
    have hcs := ih hc.ending (sound.call c).sound hc.retried only.2 ends.2
    exact ⟨hcs.ending, hcs.retried, fun hcrash => hcs.crashed (hc.crashed hcrash)⟩

/-- `recv` of a session that has nothing posted. -/
theorem Ending.recv (h : Ending isServer r lost s) (sound : Sound 0 s) (retried : Retried s) (silent : Silent r f)
    (hidle : s.isReceiving = false) (fail : Option Nat) : Tended isServer r lost s (s.recv fail true f) := by
  have hrecvs := sound.idle hidle
  unfold SessionTCP.recv
  split
  next => exact ⟨h, retried, fun hc => hc⟩
  next hon =>
    have hon : s.isConnected = true := by
      simpa using hon
    dsimp only
    cases fail with
    | none => exact ⟨⟨h.server, h.release, h.ends⟩, retried_on hon, fun hc => hc⟩
    | some err =>
      have hcleared := sound.cleared hrecvs
      have he : Ending isServer r lost { s with isReceiving := false } := ⟨h.server, h.release, h.ends⟩
      have hd := he.disconnectWith hcleared silent (sound.opened hon) err
      exact ⟨hd.ending, hd.retried, hd.crashed⟩

end SessionTCP

end Ven
