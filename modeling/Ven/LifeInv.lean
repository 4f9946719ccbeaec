import Ven.SessionLife

namespace Ven

variable {α : Type}

namespace SBuf

theorem uninit_fst (b : SBuf) (p : SOVPool α) : (b.uninit p).1 = null := by
  unfold uninit
  split
  next => rfl
  next => rfl

theorem alloc_pool {b : SBuf} {p q : SOVPool α} {id : Nat} (h : b.alloc p = some (id, q)) : b.pool = true := by
  unfold alloc at h
  split at h
  next hb => exact hb
  next => cases h

theorem pop_none {b b' : SBuf} {p q : SOVPool α} (h : b.pop p = some (none, b', q)) : b' = b := by
  unfold pop at h
  split at h
  next => cases h
  next id hs =>
    split at h
    next => cases Option.some.inj h; rfl
    next =>
      split at h
      next =>
        unfold get at h
        obtain ⟨⟨new, p'⟩, _, heq⟩ := Option.map_eq_some_iff.mp h
        have hsov : b.sov = none := congrArg Prod.fst heq
        rw [hs] at hsov
        cases hsov
      next => cases Option.some.inj h; rfl

theorem pop_some {b b' : SBuf} {p q : SOVPool α} {sov : Nat} (h : b.pop p = some (some sov, b', q)) :
    b'.popCnt = b.popCnt + 1 ∧ b'.pool = true := by
  unfold pop at h
  split at h
  next => cases h
  next id hs =>
    split at h
    next => cases h
    next =>
      split at h
      next =>
        unfold get at h
        obtain ⟨⟨new, p'⟩, halloc, heq⟩ := Option.map_eq_some_iff.mp h
        have hb : b' = { b with popCnt := b.popCnt + 1, sov := some new } := (congrArg (fun r => r.2.1) heq).symm
        rw [hb]
        exact ⟨rfl, alloc_pool halloc⟩
      next => cases h

end SBuf

namespace SessionTCP

/-- No `on_disc` since the last `on_conn`. -/
def Quiet (s : SessionTCP α) : Prop := (Event.since s.trace).countP Event.isDisc = 0

/-- The arguments of the `_disconnect`s since the last `on_conn`. -/
def arguments (s : SessionTCP α) : List Nat := (Event.since s.trace).filterMap Event.argument

/-- What the flags say about the outstanding operations and about what was raised, while `n` popped
`SOV`s are on their way to or from the kernel. -/
structure Sound (n : Nat) (s : SessionTCP α) : Prop where
  orderly : Event.Orderly s.trace
  popCnt : s.sbuf.popCnt = s.sends.length + n
  usable : 0 < s.sends.length + n → s.sbuf.pool = true
  fresh : s.gen = 0 → s.isConnected = false ∧ s.recvs = [] ∧ s.sends.length + n = 0
  receiving : s.recvs ≠ [] → s.recvs = [s.gen] ∧ s.isReceiving = true
  up : s.isDisconnecting = false → s.discs = 0 ∧ (0 < s.gen → s.pooled = 0 ∧ s.Quiet)
  down : s.isDisconnecting = true → s.isConnected = false ∧ s.recvs = [] ∧ s.sends.length + n = 0
  pending : 0 < s.discs → 0 < s.gen ∧ s.Quiet
  once : s.pooled + s.discs ≤ 1
  side : s.isServer = true ∧ s.conns = 0 ∨ s.isServer = false ∧ s.pooled = 0
  connected : s.isConnected = true → s.arguments = []
  argument : 0 < s.gen → s.isConnected = false → s.arguments.head? = some s.dovErr

/-- What callers of `send` and `disconnect` can rely on. -/
structure Steady (s s' : SessionTCP α) : Prop where
  sound : Sound 0 s'
  recvs : s'.recvs = s.recvs
  gen : s'.gen = s.gen
  receiving : s'.isReceiving = s.isReceiving
  busy : s.isReceiving = true → s'.isDisconnecting = s.isDisconnecting

/-- On a session that is off, callbacks can only write `is_release_`. -/
def Gentle (onDisc : SessionTCP α → SessionTCP α) : Prop :=
  ∀ s, s.isConnected = false → ∃ isRelease, onDisc s = { s with isRelease := isRelease }

variable {s s' t : SessionTCP α} {n : Nat}

theorem Steady.trans (h : Steady s s') (h' : Steady s' t) : Steady s t := by
  refine ⟨h'.sound, h'.recvs.trans h.recvs, h'.gen.trans h.gen, h'.receiving.trans h.receiving, fun hr => ?_⟩
  exact (h'.busy (h.receiving.trans hr)).trans (h.busy hr)

/-- Fields that say nothing about what is outstanding or was raised. -/
theorem Sound.frame (h : Sound n s) {isForceDisconnecting isRelease crashed : Bool} {pool : SOVPool α} :
    Sound n { s with
      isForceDisconnecting := isForceDisconnecting
      isRelease := isRelease
      pool := pool
      crashed := crashed } :=
  ⟨h.orderly, h.popCnt, h.usable, h.fresh, h.receiving, h.up, h.down, h.pending, h.once, h.side, h.connected, h.argument⟩

theorem Sound.refl (h : Sound 0 s) : Steady s s := ⟨h, rfl, rfl, rfl, fun _ => rfl⟩

theorem calls_off (cs : List (Call α)) : Gentle (fun s : SessionTCP α => s.calls cs) := by
  induction cs with
  | nil =>
    intro s _
    exact ⟨s.isRelease, by simp [calls]⟩
  | cons c cs ih =>
    intro s hoff
    simp only [calls]
    cases c with
    | send buf answers ok onDisc =>
      have hsend : s.call (.send buf answers ok onDisc) = s := by
        simp [call, send, sendBuf, hoff]
      rw [hsend]
      exact ih s hoff
    | disconnect isRelease onDisc =>
      have hdisc : s.call (.disconnect isRelease onDisc) = { s with isRelease := isRelease } := by
        simp [call, disconnect, hoff]
      rw [hdisc]
      obtain ⟨r, hr⟩ := ih { s with isRelease := isRelease } hoff
      exact ⟨r, hr⟩

theorem since_record {e : Event} (he : e ≠ .conn) (s : SessionTCP α) :
    Event.since (s.record e).trace = Event.since s.trace ++ [e] := Event.since_concat s.trace he

theorem gen_record {e : Event} (he : e ≠ .conn) (s : SessionTCP α) : (s.record e).gen = s.gen := by
  unfold gen record
  rw [List.count_append, List.count_singleton]
  simp [he]

theorem raised_idle (hrecvs : s.recvs = []) (hsends : s.sends = []) : s.raised = s.record (.disc s.dovErr 0 0) := by
  simp [raised, hrecvs, hsends]

/-- Events other than these three say nothing the flags keep track of. -/
theorem Sound.record (h : Sound n s) {e : Event} (he : e ≠ .conn) (hdisc : e.isDisc = false)
    (harg : e.argument = none) (allowed : Event.Allowed s.trace e) : Sound n (s.record e) := by
  have hgen := gen_record he s
  have hquiet : s.Quiet → (s.record e).Quiet := by
    intro hq
    unfold Quiet at hq ⊢
    rw [since_record he, List.countP_append, hq]
    simp [hdisc]
  have hargs : (s.record e).arguments = s.arguments := by
    unfold arguments
    rw [since_record he, List.filterMap_append]
    simp [harg]
  refine ⟨h.orderly.concat allowed, h.popCnt, h.usable, hgen ▸ h.fresh, hgen ▸ h.receiving, fun hup => ?_, h.down,
    fun hpos => ⟨hgen.symm ▸ (h.pending hpos).1, hquiet (h.pending hpos).2⟩, h.once, h.side, fun hc => ?_,
    fun hpos hoff => ?_⟩
  · refine ⟨(h.up hup).1, fun hpos => ?_⟩
    obtain ⟨hpooled, hq⟩ := (h.up hup).2 (hgen ▸ hpos)
    exact ⟨hpooled, hquiet hq⟩
  · rw [hargs]
    exact h.connected hc
  · rw [hargs]
    exact h.argument (hgen ▸ hpos) hoff

end SessionTCP

end Ven
