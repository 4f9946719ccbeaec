import Ven.LifeSteps

namespace Ven

variable {α : Type}

namespace SessionTCP

variable {s s' : SessionTCP α} {n : Nat} {f : SessionTCP α → SessionTCP α}

/-- An `SOV` is popped while the session is connected. -/
theorem Sound.popped (h : Sound 0 s) (hon : s.isConnected = true) {sbuf : SBuf}
    (hcnt : sbuf.popCnt = s.sbuf.popCnt + 1) (hpool : sbuf.pool = true) (pool : SOVPool α) :
    Sound 1 { s with sbuf := sbuf, pool := pool } := by
  refine ⟨h.orderly, ?_, fun _ => hpool, fun hz => ?_, h.receiving, h.up, fun hd => ?_, h.pending, h.once, h.side, h.connected,
    h.argument⟩
  · rw [hcnt, h.popCnt]
  · have hpos := h.opened hon
    change s.gen = 0 at hz
    omega
  · have hf := h.goingDown hon
    change s.isDisconnecting = true at hd
    rw [hf] at hd
    cases hd

/-- The popped `SOV` is pushed back. -/
theorem Sound.pushed (h : Sound 1 s) {sbuf : SBuf} {p pool : SOVPool α} {sov : Nat}
    (hpush : s.sbuf.pushSov p sov = some (sbuf, pool)) : Sound 0 { s with sbuf := sbuf, pool := pool } := by
  have hb := h.usable (Nat.succ_pos _)
  have hcnt := h.popCnt
  unfold SBuf.pushSov at hpush
  rw [if_pos hb] at hpush
  cases Option.some.inj hpush
  refine ⟨h.orderly, ?_, fun _ => hb, fun hz => ?_, h.receiving, h.up, fun hd => ?_, h.pending, h.once, h.side, h.connected,
    h.argument⟩
  · change pred32 s.sbuf.popCnt = s.sends.length + 0
    rw [pred32_of_pos (by omega)]
    omega
  · have hf := (h.fresh hz).2.2
    omega
  · have hf := (h.down hd).2.2
    omega

theorem Sound.pushable (h : Sound 1 s) (p : SOVPool α) (sov : Nat) : s.sbuf.pushSov p sov ≠ none := by
  unfold SBuf.pushSov
  rw [if_pos (h.usable (Nat.succ_pos _))]
  nofun

theorem Sound.sentOpened (h : Sound 1 s) : 0 < s.gen := by
  by_contra hz
  have hf := (h.fresh (by omega)).2.2
  omega

theorem Sound.sendBuf (h : Sound 0 s) (buf : Option α) {post : SessionTCP α → Nat → SessionTCP α × Bool}
    (posted : ∀ s' sov, Sound 1 s' → Steady s' (post s' sov).1) : Steady s (s.sendBuf buf post).1 := by
  unfold SessionTCP.sendBuf
  split
  next => exact h.refl
  next hon =>
    have hon : s.isConnected = true := by
      simpa using hon
    split
    next => exact ⟨h.frame, rfl, rfl, rfl, fun _ => rfl⟩
    next pool hpush =>
      dsimp only
      split
      next => exact ⟨h.frame, rfl, rfl, rfl, fun _ => rfl⟩
      next sbuf q hpop =>
        have hsame : sbuf = s.sbuf := SBuf.pop_none hpop
        rw [hsame]
        exact ⟨h.frame, rfl, rfl, rfl, fun _ => rfl⟩
      next sov sbuf q hpop =>
        obtain ⟨hcnt, hpool⟩ := SBuf.pop_some hpop
        have hp := posted _ sov (h.popped hon hcnt hpool q)
        exact ⟨hp.sound, hp.recvs, hp.gen, hp.receiving, hp.busy⟩

theorem Sound.onSend (h : Sound 1 s) (gentle : Gentle f) (err sov : Nat) (ok : Bool)
    {resend : SessionTCP α → SessionTCP α} (resent : ∀ s', Sound 0 s' → Steady s' (resend s')) :
    Steady s (s._on_send err sov ok f resend) := by
  have hgen := h.sentOpened
  unfold _on_send
  dsimp only
  split
  next hnone => exact absurd hnone (h.pushable _ sov)
  next sbuf pool hpush =>
    have hs := h.pushed hpush
    split
    next => exact ⟨hs.frame, rfl, rfl, rfl, fun _ => rfl⟩
    next hasToSend _ =>
      split
      next =>
        have hd := hs.disconnectWith gentle hgen err ok
        exact ⟨hd.sound, hd.recvs, hd.gen, hd.receiving, hd.busy⟩
      next =>
        split
        next =>
          have hr := resent _ hs
          exact ⟨hr.sound, hr.recvs, hr.gen, hr.receiving, hr.busy⟩
        next => exact ⟨hs, rfl, rfl, rfl, fun _ => rfl⟩

/-- `WSASend` succeeds or pends. -/
theorem Sound.inflight (h : Sound 1 s) (sov : Nat) : Steady s { s with sends := (sov, s.gen) :: s.sends } := by
  have hgen := h.sentOpened
  refine ⟨⟨h.orderly, ?_, fun _ => h.usable (Nat.succ_pos _), fun hz => ?_, h.receiving, h.up, fun hd => ?_, h.pending,
    h.once, h.side, h.connected, h.argument⟩, rfl, rfl, rfl, fun _ => rfl⟩
  · change s.sbuf.popCnt = ((sov, s.gen) :: s.sends).length + 0
    rw [h.popCnt, List.length_cons]
  · change s.gen = 0 at hz
    omega
  · have hf := (h.down hd).2.2
    omega

theorem Sound.sendSov (gentle : Gentle f) (ok : Bool) (answers : List (Option Nat)) :
    ∀ (s : SessionTCP α) (sov : Nat), Sound 1 s → Steady s (sendSov ok f answers s sov).1 := by
  induction answers with
  | nil =>
    intro s sov h
    exact h.inflight sov
  | cons answer answers ih =>
    intro s sov h
    cases answer with
    | none => exact h.inflight sov
    | some err =>
      simp only [SessionTCP.sendSov]
      exact h.onSend gentle err sov ok fun s' h' => h'.sendBuf none ih

theorem Sound.send (h : Sound 0 s) (gentle : Gentle f) (buf : Option α) (answers : List (Option Nat)) (ok : Bool) :
    Steady s (s.send buf answers ok f).1 := h.sendBuf buf (Sound.sendSov gentle ok answers)

theorem Sound.call (h : Sound 0 s) (c : Call α) : Steady s (s.call c) := by
  cases c with
  | send buf answers ok onDisc =>
    simp only [SessionTCP.call]
    exact h.send (calls_off onDisc) buf answers ok
  | disconnect isRelease onDisc =>
    simp only [SessionTCP.call]
    exact h.disconnect (calls_off onDisc) isRelease

theorem Sound.calls (h : Sound 0 s) (cs : List (Call α)) : Steady s (s.calls cs) := by
  induction cs generalizing s with
  | nil =>
    simp only [SessionTCP.calls]
    exact h.refl
  | cons c cs ih =>
    simp only [SessionTCP.calls]
    have hc := h.call c
    exact hc.trans (ih hc.sound)

theorem Sound.idle (h : Sound 0 s) (hidle : s.isReceiving = false) : s.recvs = [] := by
  by_contra hne
  have hr := (h.receiving hne).2
  rw [hidle] at hr
  cases hr

theorem Sound.cleared (h : Sound 0 s) (hrecvs : s.recvs = []) : Sound 0 { s with isReceiving := false } :=
  ⟨h.orderly, h.popCnt, h.usable, h.fresh, fun hne => absurd hrecvs hne, h.up, h.down, h.pending, h.once, h.side, h.connected,
    h.argument⟩

/-- `recv` of a session that has nothing posted. -/
theorem Sound.recv (h : Sound 0 s) (gentle : Gentle f) (hidle : s.isReceiving = false) (fail : Option Nat) (ok : Bool) :
    Sound 0 (s.recv fail ok f) := by
  have hrecvs := h.idle hidle
  unfold SessionTCP.recv
  split
  next => exact h
  next hon =>
    have hon : s.isConnected = true := by
      simpa using hon
    have hgen := h.opened hon
    have hup := h.goingDown hon
    dsimp only
    cases fail with
    | none =>
      refine ⟨h.orderly, h.popCnt, h.usable, fun hz => ?_, fun _ => ⟨?_, rfl⟩, h.up, fun hd => ?_, h.pending, h.once, h.side,
        h.connected, h.argument⟩
      · change s.gen = 0 at hz
        omega
      · change s.gen :: s.recvs = [s.gen]
        rw [hrecvs]
      · change s.isDisconnecting = true at hd
        rw [hup] at hd
        cases hd
    | some err =>
      have hs := h.cleared hrecvs
      exact (hs.disconnectWith gentle hgen err ok).sound

end SessionTCP

end Ven
