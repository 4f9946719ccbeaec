import Ven.LifeInv

namespace Ven

variable {α : Type}

namespace SessionTCP

variable {s s' : SessionTCP α} {n : Nat} {f : SessionTCP α → SessionTCP α}

theorem Sound.goingDown (h : Sound n s) (hon : s.isConnected = true) : s.isDisconnecting = false := by
  cases hd : s.isDisconnecting with
  | false => rfl
  | true =>
    rw [(h.down hd).1] at hon
    cases hon

/-- `_on_disc` of a connection that was decided to be torn down. -/
theorem Sound.onDisc (h : Sound 0 s) (gentle : Gentle f) (hgen : 0 < s.gen) (hdown : s.isDisconnecting = true)
    (hdiscs : s.discs = 0) (hpooled : s.pooled = 0) (hquiet : s.Quiet) : Steady s (s._on_disc f) := by
  obtain ⟨hoff, hrecvs, hsends⟩ := h.down hdown
  have hsends : s.sends = [] := List.eq_nil_of_length_eq_zero hsends
  let e : Event := .disc s.dovErr 0 0
  let bare : SessionTCP α := { s with sbuf := SBuf.null, pool := (s.sbuf.uninit s.pool).2, rbuf := false }
  have hraised : bare.raised = bare.record e := raised_idle hrecvs hsends
  have hevent : s._on_disc f =
      (let s' := f (bare.record e)
      if s'.isRelease then { s' with deleted := true }
      else if s'.isServer then { s' with pooled := s'.pooled + 1 }
      else s') := by
    have hpair : s.sbuf.uninit s.pool = (SBuf.null, (s.sbuf.uninit s.pool).2) :=
      Prod.ext (SBuf.uninit_fst s.sbuf s.pool) rfl
    rw [← hraised]
    unfold _on_disc
    rw [hpair]
  obtain ⟨isRelease, hcall⟩ := gentle (bare.record e) hoff
  rw [hevent, hcall]
  have hg : (bare.record e).gen = s.gen := gen_record (e := e) nofun bare
  have horderly : Event.Orderly (bare.record e).trace := by
    refine h.orderly.concat fun _ => ⟨hquiet, rfl, rfl, ?_⟩
    exact h.argument hgen hoff
  have hargs : (bare.record e).arguments.head? = some s.dovErr := by
    unfold arguments
    rw [since_record (e := e) nofun, List.filterMap_append]
    exact (List.append_nil _).symm ▸ h.argument hgen hoff
  have done : ∀ pooled deleted, pooled ≤ 1 →
      (s.isServer = true ∧ s.conns = 0 ∨ s.isServer = false ∧ pooled = 0) → Steady s { bare.record e with
      isRelease := isRelease
      pooled := pooled
      deleted := deleted } := by
    intro pooled deleted hle hside
    refine ⟨⟨horderly, ?_, ?_, fun hz => ?_, ?_, fun hup => ?_, fun _ => ⟨hoff, hrecvs, ?_⟩, fun hpos => ?_, ?_, hside,
      fun hon => ?_, fun _ _ => hargs⟩, rfl, hg, rfl, fun _ => rfl⟩
    · change 0 = s.sends.length + 0
      rw [hsends]
      rfl
    · change 0 < s.sends.length + 0 → _
      rw [hsends]
      exact fun hpos => absurd hpos (lt_irrefl 0)
    · change (bare.record e).gen = 0 at hz
      omega
    · exact fun hne => absurd hrecvs hne
    · change s.isDisconnecting = false at hup
      rw [hdown] at hup
      cases hup
    · change s.sends.length + 0 = 0
      rw [hsends]
      rfl
    · change 0 < s.discs at hpos
      omega
    · change pooled + s.discs ≤ 1
      omega
    · change s.isConnected = true at hon
      rw [hoff] at hon
      cases hon
  dsimp only
  split
  next => exact done s.pooled true (by omega) h.side
  next =>
    split
    next hserver =>
      have hconns : s.conns = 0 := by
        rcases h.side with hs | hs
        · exact hs.2
        · change s.isServer = true at hserver
          rw [hs.1] at hserver
          cases hserver
      exact done (s.pooled + 1) s.deleted (by omega) (Or.inl ⟨hserver, hconns⟩)
    next => exact done s.pooled s.deleted (by omega) h.side

/-- The start of `_disconnect`. -/
theorem Sound.turnOff (h : Sound n s) (hgen : 0 < s.gen) (err : Nat) : Sound n { s.record (.disconnect err) with
    dovErr := if s.isConnected then err else s.dovErr
    isConnected := false } := by
  have hg : (s.record (.disconnect err)).gen = s.gen := gen_record (e := .disconnect err) nofun s
  have hquiet : s.Quiet → (s.record (.disconnect err)).Quiet := by
    intro hq
    unfold Quiet at hq ⊢
    rw [since_record (e := .disconnect err) nofun, List.countP_append, hq]
    rfl
  have hargs : (s.record (.disconnect err)).arguments = s.arguments ++ [err] := by
    unfold arguments
    rw [since_record (e := .disconnect err) nofun, List.filterMap_append]
    rfl
  refine ⟨h.orderly.concat trivial, h.popCnt, h.usable, fun hz => ?_, fun hne => ?_, fun hup => ?_, fun hd => ?_,
    fun hpos => ⟨(h.pending hpos).1.trans_eq hg.symm, hquiet (h.pending hpos).2⟩, h.once, h.side, nofun, fun _ _ => ?_⟩
  · exact ⟨rfl, (h.fresh (hg.symm.trans hz)).2⟩
  · obtain ⟨hrecvs, hr⟩ := h.receiving hne
    exact ⟨hrecvs.trans (congrArg (fun g => [g]) hg.symm), hr⟩
  · refine ⟨(h.up hup).1, fun _ => ?_⟩
    obtain ⟨hpooled, hq⟩ := (h.up hup).2 hgen
    exact ⟨hpooled, hquiet hq⟩
  · exact ⟨rfl, (h.down hd).2⟩
  · change (s.record (.disconnect err)).arguments.head? = some (if s.isConnected then err else s.dovErr)
    rw [hargs]
    cases hc : s.isConnected with
    | true =>
      rw [h.connected hc]
      rfl
    | false =>
      have hfirst := h.argument hgen hc
      rw [List.head?_append, hfirst]
      rfl

theorem Sound.disconnectWith (h : Sound 0 s) (gentle : Gentle f) (hgen : 0 < s.gen) (err : Nat) (ok : Bool) :
    Steady s (s._disconnect err ok f) := by
  have hoff := h.turnOff hgen err
  have hg : (s.record (.disconnect err)).gen = s.gen := gen_record (e := .disconnect err) nofun s
  unfold _disconnect
  dsimp only
  split
  next => exact ⟨hoff, rfl, hg, rfl, fun _ => rfl⟩
  next hidle =>
    split
    next => exact ⟨hoff, rfl, hg, rfl, fun _ => rfl⟩
    next hup =>
      have hidle : s.sbuf.isSending = false ∧ s.isReceiving = false := by
        simp only [Bool.or_eq_true, not_or, Bool.not_eq_true] at hidle
        exact hidle
      have hup : s.isDisconnecting = false := by
        simp only [Bool.not_eq_true] at hup
        exact hup
      have hcnt : s.sends.length + 0 = 0 := by
        rw [← h.popCnt]
        simpa [SBuf.isSending] using hidle.1
      have hrecvs : s.recvs = [] := by
        by_contra hne
        have hr := (h.receiving hne).2
        rw [hidle.2] at hr
        cases hr
      obtain ⟨hdiscs, hrest⟩ := hoff.up hup
      obtain ⟨hpooled, hquiet⟩ := hrest (by rw [← hg] at hgen; exact hgen)
      have hdiscs : s.discs = 0 := hdiscs
      have hpooled : s.pooled = 0 := hpooled
      have down : ∀ discs, discs ≤ 1 → Sound 0 { s.record (.disconnect err) with
          dovErr := if s.isConnected then err else s.dovErr
          isConnected := false
          isDisconnecting := true
          discs := discs } := by
        intro discs hle
        refine ⟨hoff.orderly, hoff.popCnt, hoff.usable, hoff.fresh, hoff.receiving, nofun,
          fun _ => ⟨rfl, hrecvs, hcnt⟩, fun _ => ⟨hgen.trans_eq hg.symm, hquiet⟩, ?_, h.side, nofun, hoff.argument⟩
        change s.pooled + discs ≤ 1
        omega
      have hbusy : ∀ b : Bool, s.isReceiving = true → b = s.isDisconnecting := by
        intro b hr
        rw [hidle.2] at hr
        cases hr
      split
      next =>
        have hdown := down s.discs (by omega)
        have hraised := hdown.onDisc gentle (hg ▸ hgen) rfl hdiscs hpooled hquiet
        exact Steady.trans ⟨hdown, rfl, hg, rfl, hbusy true⟩ hraised
      next =>
        split
        next => exact ⟨down (s.discs + 1) (by omega), rfl, hg, rfl, hbusy true⟩
        next => exact ⟨down s.discs (by omega), rfl, hg, rfl, hbusy true⟩

theorem Sound.opened (h : Sound n s) (hon : s.isConnected = true) : 0 < s.gen := by
  by_contra hz
  have hf := (h.fresh (by omega)).1
  rw [hon] at hf
  cases hf

theorem Sound.disconnect (h : Sound 0 s) (gentle : Gentle f) (isRelease : Bool) :
    Steady s (s.disconnect isRelease f) := by
  unfold SessionTCP.disconnect
  dsimp only
  split
  next => exact ⟨h.frame, rfl, rfl, rfl, fun _ => rfl⟩
  next hon =>
    split
    next => exact ⟨h.frame, rfl, rfl, rfl, fun _ => rfl⟩
    next =>
      have hon : s.isConnected = true := by
        simpa using hon
      have hmarked : Sound 0 { s with isRelease := isRelease, isForceDisconnecting := true } := h.frame
      have hd := hmarked.disconnectWith gentle (h.opened hon) 0 true
      exact ⟨hd.sound, hd.recvs, hd.gen, hd.receiving, hd.busy⟩

end SessionTCP

end Ven
