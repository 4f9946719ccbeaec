import Ven.SendSteps

namespace Ven

variable {α : Type}

namespace Sender

/-- What is in `sov_`. -/
def current (s : Sender α) : List α := (s.sbuf.sov.map s.pool.items).getD []

/-- What was accepted and not submitted yet: first the `SOV`s that were popped, then `sov_`. -/
def pending (s : Sender α) : List α := s.hand.flatMap s.pool.items ++ s.current

/-- Nothing has gone wrong, and a session without `sov_` is not in use. -/
structure Ready (s : Sender α) : Prop where
  owned : Owned s
  sound : s.crashed = false
  quiet : s.sbuf.sov = none → s.isConnected = false ∧ ∀ t, s.thread t = .idle

variable {s s' : Sender α}

theorem current_some {id : Nat} (hs : s.sbuf.sov = some id) : s.current = s.pool.items id := by
  rw [current, hs]
  rfl

theorem current_congr (hsov : s'.sbuf.sov = s.sbuf.sov)
    (same : ∀ id, s.sbuf.sov = some id → s'.pool.items id = s.pool.items id) : s'.current = s.current := by
  unfold current
  rw [hsov]
  cases hs : s.sbuf.sov with
  | none => rfl
  | some id => exact same id hs

theorem pending_congr (hsov : s'.sbuf.sov = s.sbuf.sov) (hhand : s'.hand = s.hand)
    (same : ∀ id, s.sbuf.sov = some id ∨ id ∈ s.hand → s'.pool.items id = s.pool.items id) :
    s'.pending = s.pending := by
  have hcur := current_congr hsov fun id hid => same id (Or.inl hid)
  have hflat : s.hand.flatMap s'.pool.items = s.hand.flatMap s.pool.items :=
    List.flatMap_congr fun id hid => same id (Or.inr hid)
  rw [pending, pending, hcur, hhand, hflat]

theorem Ready.sov_some (h : Ready s) {t : Nat} (hpc : s.thread t ≠ .idle) : ∃ cur, s.sbuf.sov = some cur := by
  cases hs : s.sbuf.sov with
  | none => exact absurd ((h.quiet hs).2 t) hpc
  | some cur => exact ⟨cur, rfl⟩

/-- What a step does to the `Buf`s: either it adds accepted ones to those pending, or it submits the
contents of one `SOV`. -/
inductive Moved (s : Sender α) : SendOp α → Sender α → Prop
  | accept {op s'} (added : List α) (accepted : s'.accepted = s.accepted ++ added)
      (handed : s'.handed = s.handed) (pending : s'.pending = s.pending ++ added)
      (other : ∀ t fail, op ≠ .wsaSend t fail) : Moved s op s'
  | submit {t fail s'} (id : Nat) (pc : s.thread t = .popped id) (accepted : s'.accepted = s.accepted)
      (handed : s'.handed = s.handed ++ [s.pool.items id])
      (pending : s'.pending = (s.hand.erase id).flatMap s.pool.items ++ s.current) :
      Moved s (.wsaSend t fail) s'

theorem Moved.none {op : SendOp α} (other : ∀ t fail, op ≠ .wsaSend t fail) (accepted : s'.accepted = s.accepted)
    (handed : s'.handed = s.handed) (pending : s'.pending = s.pending) : Moved s op s' :=
  .accept [] (by rw [accepted, List.append_nil]) handed (by rw [pending, List.append_nil]) other

theorem Owned.lock_pending (h : Owned s) {t cur : Nat} (hs : s.sbuf.sov = some cur) (buf : Option α) :
    (s.lock t buf).sbuf.sov.isSome = true ∧ (s.lock t buf).accepted = s.accepted ++ buf.toList ∧
      (s.lock t buf).handed = s.handed ∧ (s.lock t buf).pending = s.pending ++ buf.toList := by
  have hhand : ∀ id ∈ s.hand, id ∈ s.busy ∧ id ≠ cur := by
    intro id hid
    have hout := h.hand_out hid
    exact ⟨mem_busy.mpr (Or.inr (Or.inl hout)), h.ne_out hs hout⟩
  rcases h.lock_cases hs t buf with ⟨p, hl, _, hitems, hother, _⟩ | ⟨new, p, hl, _, hitems, _, hnew, hother, _⟩
  · have hflat : s.hand.flatMap p.items = s.hand.flatMap s.pool.items :=
      List.flatMap_congr fun id hid => hother id (hhand id hid).2
    rw [hl]
    refine ⟨?_, rfl, rfl, ?_⟩
    · change s.sbuf.sov.isSome = true
      rw [hs]
      rfl
    · have hcur : current { s.goto t .idle with pool := p, accepted := s.accepted ++ buf.toList } = p.items cur :=
        current_some hs
      rw [pending, pending, hcur, hitems, current_some hs, ← List.append_assoc]
      change s.hand.flatMap p.items ++ _ ++ _ = _
      rw [hflat]
  · have hflat : s.hand.flatMap p.items = s.hand.flatMap s.pool.items :=
      List.flatMap_congr fun id hid => hother id (hhand id hid).1 (hhand id hid).2
    rw [hl]
    refine ⟨rfl, rfl, rfl, ?_⟩
    rw [pending, pending, current_some hs, List.append_assoc, ← hitems]
    change (s.hand ++ [cur]).flatMap p.items ++ p.items new = _
    rw [hnew, List.append_nil, List.flatMap_append, hflat, List.flatMap_singleton]

/-- What every step keeps. Only `conn` gives a session its `sov_`, and only `lock` pops one. -/
structure Stepped (s : Sender α) (op : SendOp α) (s' : Sender α) : Prop where
  owned : Owned s'
  sound : s'.crashed = s.crashed
  moved : Moved s op s'
  sov : (∀ actor, op ≠ .conn actor) → s'.sbuf.sov.isSome = s.sbuf.sov.isSome
  out : (∀ t, op ≠ .lock t) → ∀ id ∈ s'.out, id ∈ s.out

/-- A step that touches no `SOV`. -/
theorem Owned.plain (h : Owned s') {op : SendOp α} (hop : ∀ t fail, op ≠ .wsaSend t fail)
    (hcrash : s'.crashed = s.crashed) (hacc : s'.accepted = s.accepted) (hhanded : s'.handed = s.handed)
    (hpend : s'.pending = s.pending) (hsov : s'.sbuf.sov = s.sbuf.sov) (hout : ∀ id ∈ s'.out, id ∈ s.out) :
    Stepped s op s' :=
  ⟨h, hcrash, .none hop hacc hhanded hpend, fun _ => by rw [hsov], fun _ => hout⟩

theorem Owned.off (h : Owned s) : Owned { s with isConnected := false } :=
  ⟨h.pool, h.holders, h.room, h.popCnt, h.usable, h.none_out, h.filled, h.cleared⟩

theorem Owned.stepped_goto (h : Owned s) {op : SendOp α} (hop : ∀ t fail, op ≠ .wsaSend t fail) {t : Nat}
    {pc : SendPC α} (hsov : (s.thread t).sov = none) (hpc : pc.sov = none) : Stepped s op (s.goto t pc) :=
  (h.goto hsov hpc).plain hop rfl rfl rfl rfl rfl fun _ hid => hid

theorem Owned.stepped_lock (h : Owned s) {t cur : Nat} (hs : s.sbuf.sov = some cur) {buf : Option α} {resumed : Bool}
    (hpc : s.thread t = .entered buf resumed) : Stepped s (.lock t) (s.lock t buf) := by
  obtain ⟨hown, hcrash⟩ := h.lock hs hpc
  obtain ⟨hsome, hacc, hhanded, hpend⟩ := h.lock_pending (t := t) hs buf
  refine ⟨hown, hcrash, .accept buf.toList hacc hhanded hpend fun _ _ => nofun, fun _ => ?_, fun hl => absurd rfl (hl t)⟩
  rw [hsome, hs]
  rfl

theorem Owned.stepped_wsaSend (h : Owned s) {t id : Nat} (hpc : s.thread t = .popped id) (fail : Option Nat) :
    Stepped s (.wsaSend t fail) (s.wsaSend t id fail) := by
  have hown := h.wsaSend hpc fail
  cases fail with
  | none => exact ⟨hown, rfl, .submit id hpc rfl rfl rfl, fun _ => rfl, fun _ _ hid => hid⟩
  | some err => exact ⟨hown, rfl, .submit id hpc rfl rfl rfl, fun _ => rfl, fun _ _ hid => hid⟩

theorem Owned.stepped_clear (h : Owned s) {t id err : Nat} (hpc : s.thread t = .ended id err) :
    Stepped s (.clear t) { s.goto t (.cleared id err) with pool := s.pool.clear id } := by
  have hsov : (s.thread t).sov = some id := by
    rw [hpc]
    rfl
  have hne : ∀ k, s.sbuf.sov = some k ∨ k ∈ s.hand → k ≠ id := by
    intro k hk hki
    subst hki
    rcases hk with hk | hk
    · exact h.ne_out hk (h.holders.held t k hsov).1 rfl
    · obtain ⟨u, hu⟩ := (h.holders.inHand k).mp hk
      have hut := h.holders.alone u t k (Holders.popped_sov hu) hsov
      rw [hut, hpc] at hu
      cases hu
  exact (h.clear hpc).plain (fun _ _ => nofun) rfl rfl rfl
    (pending_congr rfl rfl fun k hk => SOVPool.items_setItems_of_ne s.pool (hne k hk) []) rfl fun _ hid => hid

theorem Owned.stepped_pushBack (h : Owned s) {t id err : Nat} (hpc : s.thread t = .cleared id err) :
    Stepped s (.pushBack t) (s.pushBack t id err) := by
  obtain ⟨hown, hcrash⟩ := h.pushBack hpc
  obtain ⟨hasToSend, cur, hl, _⟩ := h.pushBack_cases hpc
  rw [hl] at hown hcrash ⊢
  exact hown.plain (fun _ _ => nofun) hcrash rfl rfl (pending_congr rfl rfl fun _ _ => rfl) rfl
    fun _ hid => List.mem_of_mem_erase hid

theorem Owned.stepped_conn (h : Owned s) (hnull : s.sbuf = SBuf.null) (hoff : s.isConnected = false) (actor : Nat)
    (hs : s.step (.conn actor) = some s') : Stepped s (.conn actor) s' := by
  obtain ⟨new, p, hp, hitems, _, hown⟩ := h.conn hnull actor
  rw [Sender.step, if_pos ⟨hnull, hoff⟩, hp] at hs
  cases Option.some.inj hs
  have hnone : s.sbuf.sov = none := by
    rw [hnull]
    rfl
  have hhand : s.hand = [] := by
    apply List.eq_nil_iff_forall_not_mem.mpr
    intro id hid
    have hout := h.hand_out hid
    rw [h.none_out hnone] at hout
    cases hout
  have hcur : s.current = [] := by
    rw [current, hnone]
    rfl
  refine ⟨hown, rfl, .none (by intro t fail hop; cases hop) rfl rfl ?_, fun hc => absurd rfl (hc actor), fun _ _ hid => hid⟩
  change s.hand.flatMap p.items ++ p.items new = s.hand.flatMap s.pool.items ++ s.current
  rw [hhand, hitems, hcur]
  rfl

/-- Other sessions do not touch what is pending here. -/
theorem Owned.stepped_others (h : Owned s) {op : SendOp α} (hop : ∀ t fail, op ≠ .wsaSend t fail) {p : SOVPool α}
    {away : List Nat} (hown : Owned { s with pool := p, away := away })
    (same : ∀ k, s.sbuf.sov = some k ∨ k ∈ s.out → p.items k = s.pool.items k) :
    Stepped s op { s with pool := p, away := away } :=
  hown.plain hop rfl rfl rfl (pending_congr rfl rfl fun k hk => same k (hk.imp_right h.hand_out)) rfl fun _ hid => hid

/-- Every step that does not run a section of `send` without `sov_`. -/
theorem Owned.step (h : Owned s) {op : SendOp α} (live : ∀ t, op = .lock t → ∃ cur, s.sbuf.sov = some cur)
    (hs : s.step op = some s') : Stepped s op s' := by
  -- the moves of a thread that holds no `SOV`
  have goes : ∀ {op : SendOp α} {t : Nat} {pc : SendPC α}, (∀ t fail, op ≠ .wsaSend t fail) → (s.thread t).sov = none →
      pc.sov = none → Stepped s op (s.goto t pc) := fun hop hsov hpc => h.stepped_goto hop hsov hpc
  have hcopy := hs
  cases Move.of_step hs with
  | enter idle => exact goes (by exact fun _ _ => nofun) (by rw [idle]; rfl) rfl
  | refuse => exact h.plain (fun _ _ => nofun) rfl rfl rfl rfl rfl fun _ hid => hid
  | @lock t _ _ entered =>
    obtain ⟨cur, hcur⟩ := live t rfl
    exact h.stepped_lock hcur entered
  | wsaSend popped => exact h.stepped_wsaSend popped _
  | complete idle posted =>
    exact (h.complete idle posted _).plain (fun _ _ => nofun) rfl rfl rfl rfl rfl fun _ hid => hid
  | clear ended => exact h.stepped_clear ended
  | pushBack cleared => exact h.stepped_pushBack cleared
  | stop pushed => exact goes (by exact fun _ _ => nofun) (by rw [pushed]; rfl) rfl
  | wake pushed => exact goes (by exact fun _ _ => nofun) (by rw [pushed]; rfl) rfl
  | rest pushed => exact goes (by exact fun _ _ => nofun) (by rw [pushed]; rfl) rfl
  | resume resuming => exact goes (by exact fun _ _ => nofun) (by rw [resuming]; rfl) rfl
  | giveUp resuming => exact goes (by exact fun _ _ => nofun) (by rw [resuming]; rfl) rfl
  | @leave t _ leaving =>
    have hg := h.goto (t := t) (by rw [leaving]; rfl) (rfl : (SendPC.idle : SendPC α).sov = none)
    exact hg.off.plain (fun _ _ => nofun) rfl rfl rfl rfl rfl fun _ hid => hid
  | @conn actor _ _ bare off => exact h.stepped_conn bare off actor hcopy
  | @connFails actor bare off => exact h.stepped_conn bare off actor hcopy
  | disconnect => exact h.off.plain (fun _ _ => nofun) rfl rfl rfl rfl rfl fun _ hid => hid
  | @otherPop actor sov pool alloc =>
    obtain ⟨id, p, hp, same, hown⟩ := h.otherPop actor
    cases Option.some.inj (hp.symm.trans alloc)
    exact h.stepped_others (by exact fun _ _ => nofun) hown same
  | otherFill held =>
    obtain ⟨same, hown⟩ := h.otherFill held _
    exact h.stepped_others (by exact fun _ _ => nofun) hown same
  | otherPush held =>
    obtain ⟨same, hown⟩ := h.otherPush held
    exact h.stepped_others (by exact fun _ _ => nofun) hown same

/-- Nobody uses a session before it has its `sov_`. -/
theorem Ready.quiet_step (h : Ready s) (hnone : s.sbuf.sov = none) {op : SendOp α} (hs : s.step op = some s')
    (hop : ∀ actor, op ≠ .conn actor) : s'.isConnected = false ∧ ∀ t, s'.thread t = .idle := by
  obtain ⟨hoff, hidle⟩ := h.quiet hnone
  cases op with
  | call t buf =>
    simp only [Sender.step, hidle t, hoff] at hs
    cases Option.some.inj hs
    exact ⟨hoff, hidle⟩
  | complete t id err =>
    simp only [Sender.step, hidle t] at hs
    split at hs
    next hin =>
      have hout := h.owned.holders.flying id hin
      rw [h.owned.none_out hnone] at hout
      cases hout
    next => cases hs
  | conn actor => exact absurd rfl (hop actor)
  | disconnect =>
    cases Option.some.inj hs
    exact ⟨rfl, hidle⟩
  | otherPop actor =>
    obtain ⟨x, _, rfl⟩ := Option.map_eq_some_iff.mp hs
    exact ⟨hoff, hidle⟩
  | otherFill id items =>
    simp only [Sender.step] at hs
    split at hs
    next =>
      cases Option.some.inj hs
      exact ⟨hoff, hidle⟩
    next => cases hs
  | otherPush id =>
    simp only [Sender.step] at hs
    split at hs
    next =>
      cases Option.some.inj hs
      exact ⟨hoff, hidle⟩
    next => cases hs
  | _ t =>
    simp only [Sender.step, hidle t] at hs
    cases hs

theorem Ready.step (h : Ready s) {op : SendOp α} (hs : s.step op = some s') : Ready s' ∧ Moved s op s' := by
  have live : ∀ t, op = .lock t → ∃ cur, s.sbuf.sov = some cur := by
    intro t hop
    subst hop
    apply h.sov_some (t := t)
    intro hidle
    simp only [Sender.step, hidle] at hs
    cases hs
  have stepped := h.owned.step live hs
  refine ⟨⟨stepped.owned, stepped.sound.trans h.sound, fun hn => ?_⟩, stepped.moved⟩
  have hop : ∀ actor, op ≠ .conn actor := by
    intro actor hop
    subst hop
    simp only [Sender.step] at hs
    split at hs
    next hnull =>
      obtain ⟨new, p, hp, _⟩ := h.owned.conn hnull.1 actor
      rw [hp] at hs
      cases Option.some.inj hs
      cases hn
    next => cases hs
  have hnone : s.sbuf.sov = none := by
    have hsame := stepped.sov hop
    rw [hn] at hsame
    exact Option.isNone_iff_eq_none.mp (by rw [← Option.not_isSome, ← hsame]; rfl)
  exact h.quiet_step hnone hs hop

theorem ready_start {initCnt stepCnt arrCnt : Nat} (hstep : 0 < stepCnt) (harr : 0 < arrCnt) :
    Ready (start initCnt stepCnt arrCnt : Sender α) := by
  have hidle : ∀ (t id : Nat), ((fun _ => .idle : Nat → SendPC α) t).sov ≠ some id := fun _ _ => nofun
  have hholders : Holders (fun _ => .idle : Nat → SendPC α) [] [] [] := by
    refine ⟨fun t id h => absurd h (hidle t id), fun t _ id h => absurd h (hidle t id), fun _ => nofun, .nil, ?_,
      .nil, .nil⟩
    exact fun id => ⟨nofun, fun ⟨t, h⟩ => nomatch h⟩
  exact ⟨⟨SOVPool.ok_init hstep harr, hholders, fun _ => nofun, rfl, rfl, fun _ => rfl, fun _ => nofun,
    fun _ _ _ => nofun⟩, rfl, fun _ => ⟨rfl, fun _ => rfl⟩⟩

end Sender

end Ven
