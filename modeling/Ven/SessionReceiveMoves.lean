import Ven.SessionReceive

namespace Ven

variable {α : Type}

namespace Sender

variable {s s' : Sender α}

theorem lock_connected (s : Sender α) (t : Nat) (buf : Option α) : (s.lock t buf).isConnected = s.isConnected := by
  unfold lock
  split
  next => rfl
  next =>
    split
    next => rfl
    next => rfl
    next => rfl

theorem wsaSend_connected (s : Sender α) (t sov : Nat) (fail : Option Nat) :
    (s.wsaSend t sov fail).isConnected = s.isConnected := by
  cases fail with
  | none => rfl
  | some err => rfl

theorem pushBack_connected (s : Sender α) (t sov err : Nat) : (s.pushBack t sov err).isConnected = s.isConnected := by
  unfold pushBack
  split
  next => rfl
  next =>
    split
    next => rfl
    next => rfl

/-- Only `_disconnect` and a new connection write `is_connected_`. -/
theorem step_connected {op : SendOp α} (hop : ∀ t actor, op ≠ .leave t ∧ op ≠ .conn actor ∧ op ≠ .disconnect)
    (hs : s.step op = some s') : s'.isConnected = s.isConnected := by
  cases op with
  | call t buf =>
    simp only [step] at hs
    split at hs
    next =>
      cases Option.some.inj hs
      split
      next => rfl
      next => rfl
    next => cases hs
  | lock t =>
    simp only [step] at hs
    split at hs
    next =>
      cases Option.some.inj hs
      exact lock_connected s t _
    next => cases hs
  | wsaSend t fail =>
    simp only [step] at hs
    split at hs
    next =>
      cases Option.some.inj hs
      exact wsaSend_connected s t _ fail
    next => cases hs
  | complete t sov err =>
    simp only [step] at hs
    split at hs
    next =>
      split at hs
      next => cases Option.some.inj hs; rfl
      next => cases hs
    next => cases hs
  | clear t =>
    simp only [step] at hs
    split at hs
    next => cases Option.some.inj hs; rfl
    next => cases hs
  | pushBack t =>
    simp only [step] at hs
    split at hs
    next =>
      cases Option.some.inj hs
      exact pushBack_connected s t _ _
    next => cases hs
  | check t =>
    simp only [step] at hs
    split at hs
    next =>
      cases Option.some.inj hs
      split
      next => rfl
      next =>
        split
        next => rfl
        next => rfl
    next => cases hs
  | resume t =>
    simp only [step] at hs
    split at hs
    next =>
      cases Option.some.inj hs
      split
      next => rfl
      next => rfl
    next => cases hs
  | leave t => exact absurd rfl (hop t 0).1
  | conn actor => exact absurd rfl (hop 0 actor).2.1
  | disconnect => exact absurd rfl (hop 0 0).2.2
  | otherPop actor =>
    obtain ⟨_, _, rfl⟩ := Option.map_eq_some_iff.mp hs
    rfl
  | otherFill sov items =>
    simp only [step] at hs
    split at hs
    next => cases Option.some.inj hs; rfl
    next => cases hs
  | otherPush sov =>
    simp only [step] at hs
    split at hs
    next => cases Option.some.inj hs; rfl
    next => cases hs

end Sender

namespace Session

variable {s s' : Session α} {w : Nat}

/-- Once the connection is off, a parked thread stays parked. -/
theorem Single.torn (h : Single s w) (hset : s.Settled) (hpark : s.Parked (s.io w)) (hio : s'.io = s.io)
    (hgen : s'.gen = s.gen) (hrecvs : s'.recvs = s.recvs) (hoff : s'.send.isConnected = false)
    (honce : s'.pooled + s'.discs ≤ 1) (hdown : s'.isDisconnecting = true) : Single s' w := by
  have hset' : s'.Settled := by
    refine ⟨hrecvs.trans hset.1, fun hc => ?_⟩
    rw [hoff] at hc
    cases hc
  refine ⟨fun u hu => ?_, honce, fun _ => hdown, ?_⟩
  · rw [hio]
    exact h.others u hu
  · rw [hio]
    refine phase_parked ?_ hset'
    unfold Parked
    rw [hgen]
    exact hpark

theorem Single.onDisc (h : Single s w) (hset : s.Settled) (hpark : s.Parked (s.io w))
    (hoff : s.send.isConnected = false) (hdown : s.isDisconnecting = true) (hzero : s.pooled + s.discs = 0) :
    Single s.onDisc w := by
  refine h.torn hset hpark rfl rfl rfl hoff ?_ hdown
  change (if s.isRelease then s.pooled else s.pooled + 1) + s.discs ≤ 1
  split
  next => omega
  next => omega

/-- What is being sent, `dov_` and two of the flags do not concern the receiving side. -/
theorem phase_frame {pc : RecvPC} (h : s.PhaseOk pc) {send : Sender α} {err : Nat}
    {isRelease isForceDisconnecting : Bool} (hconn : send.isConnected = true → s.send.isConnected = true) :
    PhaseOk { s with
      send := send
      dovErr := err
      isRelease := isRelease
      isForceDisconnecting := isForceDisconnecting } pc := by
  have hset : s.Settled → Settled { s with
      send := send
      dovErr := err
      isRelease := isRelease
      isForceDisconnecting := isForceDisconnecting } :=
    fun hset => ⟨hset.1, fun hc => hset.2 (hconn hc)⟩
  cases pc with
  | idle => exact h.imp_right hset
  | leaving err => exact h.imp_right hset
  | testConnected g => exact ⟨h.1, hset h.2⟩
  | enterRecv g => exact ⟨h.1, hset h.2⟩
  | _ => exact h

theorem Single.frame (h : Single s w) {send : Sender α} {err : Nat} {isRelease isForceDisconnecting : Bool}
    (hconn : send.isConnected = true → s.send.isConnected = true) :
    Single { s with
      send := send
      dovErr := err
      isRelease := isRelease
      isForceDisconnecting := isForceDisconnecting } w :=
  ⟨h.others, h.once, h.down, phase_frame h.phase hconn⟩

/-- A teardown that is decided on while no thread is exposed finds the worker parked. -/
theorem Single.disconnectWith (h : Single s w) (err : Nat) (ok : Bool)
    (guard : s.tearsDown = true → ∀ u, (s.io u).exposed = false) : Single (s._disconnect err ok) w := by
  unfold _disconnect
  dsimp only
  split
  next htears =>
    have hexp := guard htears w
    unfold tearsDown at htears
    simp only [Bool.and_eq_true, Bool.not_eq_true', Bool.or_eq_false_iff] at htears
    obtain ⟨⟨_, hrecv⟩, hdisc⟩ := htears
    obtain ⟨hset, hpark⟩ := h.parked hrecv hexp
    have hzero : s.pooled + s.discs = 0 := by
      by_contra hpos
      have hd := h.down (by omega)
      rw [hdisc] at hd
      cases hd
    have hoff : ∀ discs, s.pooled + discs ≤ 1 → Single { s with
        dovErr := if s.send.isConnected then err else s.dovErr
        send := { s.send with isConnected := false }
        isDisconnecting := true
        discs := discs } w := fun discs honce => h.torn hset hpark rfl rfl rfl rfl honce rfl
    split
    next => exact (hoff s.discs h.once).onDisc ⟨hset.1, nofun⟩ hpark rfl rfl hzero
    next =>
      split
      next => exact hoff (s.discs + 1) (by omega)
      next => exact hoff s.discs h.once
  next => exact h.frame fun hc => absurd hc Bool.false_ne_true

theorem Single.disconnect (h : Single s w) (isRelease : Bool)
    (guard : s.decides (.disconnect isRelease) = true → ∀ u, (s.io u).exposed = false) :
    Single (s.disconnect isRelease) w := by
  unfold Session.disconnect
  dsimp only
  split
  next => exact h.frame id
  next hconn =>
    split
    next => exact h.frame id
    next hforce =>
      have hmarked : Single { s with isRelease := isRelease, isForceDisconnecting := true } w := h.frame id
      refine hmarked.disconnectWith 0 true fun htears => guard ?_
      simp only [Bool.not_eq_true, Bool.not_eq_false'] at hconn hforce
      simp only [decides, hconn, hforce, Bool.not_false, Bool.and_true, Bool.true_and]
      exact htears

theorem Single.send (h : Single s w) {op : SendOp α} (hs : s.sendStep op = some s') : Single s' w := by
  have stepped : (∀ t actor, op ≠ .leave t ∧ op ≠ .conn actor ∧ op ≠ .disconnect) →
      (s.send.step op).map (fun send => { s with send := send }) = some s' → Single s' w := by
    intro hop hs
    obtain ⟨send, hsend, rfl⟩ := Option.map_eq_some_iff.mp hs
    exact h.frame fun hc => (Sender.step_connected hop hsend).symm.trans hc
  cases op with
  | leave t => cases hs
  | conn actor => cases hs
  | disconnect => cases hs
  | _ => exact stepped (fun _ _ => ⟨nofun, nofun, nofun⟩) hs

/-- A thread that works on the receiving side is the one that does. -/
theorem Single.working (h : Single s w) {u g : Nat} {pc : RecvPC} (hpc : s.io u = pc) (hg : pc.gen = some g) :
    (s.io u).gen = some g ∧ s.PhaseOk pc := by
  have hu : (s.io u).gen = some g := by rw [hpc, hg]
  have huw := h.worker hu
  subst huw
  exact ⟨hu, hpc ▸ h.phase⟩

/-- The statements of `_on_conn_init`. -/
theorem Single.init (h : Single s w) {u : Nat} (hs : s.initStep u = some s') : Single s' u := by
  simp only [initStep] at hs
  split at hs
  next g hpc =>
    cases Option.some.inj hs
    obtain ⟨hg, hp⟩ := h.working hpc rfl
    exact h.move hg rfl h.once h.down hp
  next g hpc =>
    cases Option.some.inj hs
    obtain ⟨hg, hp⟩ := h.working hpc rfl
    exact h.move hg rfl h.once h.down hp
  next g hpc =>
    cases Option.some.inj hs
    obtain ⟨hg, hgen, hrecvs, hzero⟩ := h.working hpc rfl
    refine h.move hg rfl h.once (fun hpos => ?_) ⟨hgen, hrecvs, hzero, rfl⟩
    change 0 < s.pooled + s.discs at hpos
    omega
  next g hpc =>
    obtain ⟨hg, hp⟩ := h.working hpc rfl
    split at hs
    next =>
      cases Option.some.inj hs
      exact h.move hg rfl h.once h.down hp
    next =>
      cases Option.some.inj hs
      exact h.move hg rfl h.once h.down hp
  next g hpc =>
    cases Option.some.inj hs
    obtain ⟨hg, hgen, hrecvs, hzero, hdisc⟩ := h.working hpc rfl
    exact h.move hg rfl h.once h.down ⟨hgen, hrecvs, fun _ => ⟨hzero, hdisc, rfl⟩⟩
  next => cases hs

/-- A thread that is parked before an `is_connected_` test goes on only while the connection is there. -/
theorem Single.test (h : Single s w) {u g : Nat} {pc on off : RecvPC} (hpc : s.io u = pc) (hg : pc.gen = some g)
    (hset : s.PhaseOk pc → g = s.gen ∧ s.Settled) (hon : g = s.gen ∧ s.recvs = [] ∧ s.Alive → s.PhaseOk on)
    (hoff : s.Settled → s.PhaseOk off) : Single (if s.send.isConnected then s.goto u on else s.goto u off) u := by
  obtain ⟨hu, hp⟩ := h.working hpc hg
  obtain ⟨hgen, hset⟩ := hset hp
  have keep : ∀ pc, s.PhaseOk pc → (s.goto u pc).PhaseOk pc := by
    intro pc hp
    cases pc with
    | _ => exact hp
  split
  next hc => exact h.move hu rfl h.once h.down (keep on (hon ⟨hgen, hset.1, hset.2 hc⟩))
  next => exact h.move hu rfl h.once h.down (keep off (hoff hset))

/-- The session is taken from the pool. -/
theorem Single.accept (h : Single s w) {u : Nat} (fresh : ∀ u, (s.io u).stale = false) (hpos : 0 < s.pooled)
    (ok : Bool) :
    ∃ w', Single (let s := { s with gen := s.gen + 1, pooled := s.pooled - 1 }
      if ok then s.goto u (.setConnected s.gen) else s.disconnect false) w' := by
  obtain ⟨hset, hconn, hpark⟩ := h.off (Nat.add_pos_left hpos s.discs)
  have hidle : (s.io w).gen = none := by
    rcases hpark with hidle | hstale
    · exact hidle
    · rw [fresh w] at hstale
      cases hstale.1
  have hzero : s.pooled - 1 + s.discs = 0 := by
    have honce := h.once
    omega
  have hdown : 0 < s.pooled - 1 + s.discs → s.isDisconnecting = true := fun hpos => by omega
  dsimp only
  split
  next => exact ⟨u, h.begin hidle rfl (by exact hzero.le.trans zero_le_one) hdown ⟨rfl, hset.1, hzero⟩⟩
  next =>
    have hnext : Single { s with gen := s.gen + 1, pooled := s.pooled - 1 } w := by
      refine ⟨h.others, hzero.le.trans zero_le_one, hdown, (phase_idle hidle).mpr (Or.inr ⟨hset.1, fun hc => ?_⟩)⟩
      change s.send.isConnected = true at hc
      rw [hconn] at hc
      cases hc
    refine ⟨w, hnext.disconnect false fun hdec => ?_⟩
    simp only [decides, hconn, Bool.false_and] at hdec
    cases hdec

/-- A thread that is about to leave is not the worker. -/
theorem Single.leave (h : Single s w) {u err : Nat} (hpc : s.io u = .leaving err) : Single (s.goto u .idle) w := by
  refine ⟨fun v hv => ?_, h.once, h.down, ?_⟩
  · by_cases hvu : v = u
    · subst hvu
      simp only [goto, Function.update_self]
      rfl
    · simp only [goto, Function.update_of_ne hvu]
      exact h.others v hv
  · have hphase := h.phase
    by_cases hwu : w = u
    · subst hwu
      rw [hpc] at hphase
      simp only [goto, Function.update_self]
      exact hphase
    · simp only [goto, Function.update_of_ne hwu]
      cases hw : s.io w with
      | _ =>
        rw [hw] at hphase
        exact hphase

end Session

end Ven
