import Ven.SendBatches

namespace Ven

variable {α : Type}

/-- Between the `s_lock_` section of `_on_send` that found something to send and the follow-up:
`send(Buf())`, or `_disconnect` after an error. -/
def SendPC.returning : SendPC α → Bool
  | .entered _ resumed => resumed
  | .pushed _ hasToSend => hasToSend
  | .resuming => true
  | .leaving _ => true
  | _ => false

namespace Sender

/-- What waits in `sov_` while nothing is in flight is going to be sent. -/
def Woken (s : Sender α) : Prop :=
  s.isConnected = true → s.sbuf.popCnt = 0 → s.current ≠ [] → ∃ t, (s.thread t).returning = true

variable {s s' : Sender α}

/-- A step that concerns neither the counter nor `sov_`, and takes nobody off the way back. -/
theorem Woken.keep (w : Woken s) {t : Nat} {pc : SendPC α} (hthread : s'.thread = Function.update s.thread t pc)
    (hpc : (s.thread t).returning = true → pc.returning = true) (hconn : s'.isConnected = true → s.isConnected = true)
    (hcnt : s'.sbuf.popCnt = s.sbuf.popCnt) (hcur : s'.current = s.current) : Woken s' := by
  intro hc hz hne
  rw [hcnt] at hz
  rw [hcur] at hne
  obtain ⟨u, hu⟩ := w (hconn hc) hz hne
  rw [hthread]
  by_cases hut : u = t
  · subst hut
    exact ⟨u, by rw [Function.update_self]; exact hpc hu⟩
  · exact ⟨u, by rw [Function.update_of_ne hut]; exact hu⟩

theorem Woken.others (w : Woken s) (hthread : s'.thread = s.thread)
    (hconn : s'.isConnected = true → s.isConnected = true) (hcnt : s'.sbuf.popCnt = s.sbuf.popCnt)
    (hcur : s'.current = s.current) : Woken s' := by
  have hsame : s'.thread = Function.update s.thread 0 (s.thread 0) := by
    rw [hthread, Function.update_eq_self]
  exact w.keep hsame id hconn hcnt hcur

/-- After a section of `send` nothing is in `sov_` unless something is in flight. -/
theorem Ready.lock_woken (h : Ready s) {t : Nat} {buf : Option α} {resumed : Bool}
    (hpc : s.thread t = .entered buf resumed) : Woken (s.lock t buf) := by
  obtain ⟨cur, hcur⟩ := h.sov_some (t := t) (by rw [hpc]; exact nofun)
  intro _ hz hne
  rcases h.owned.lock_cases hcur t buf with ⟨p, hl, _, _, _, _, hstay⟩ | ⟨new, p, hl, _⟩
  · rw [hl] at hz hne
    have hc : current { s.goto t .idle with pool := p, accepted := s.accepted ++ buf.toList } = p.items cur :=
      current_some hcur
    rcases hstay with hnil | ⟨hpos, _⟩
    · rw [hc] at hne
      exact absurd hnil hne
    · change s.sbuf.popCnt = 0 at hz
      omega
  · rw [hl] at hz
    change s.sbuf.popCnt + 1 = 0 at hz
    omega

theorem Ready.pushBack_woken (h : Ready s) {t id err : Nat} (hpc : s.thread t = .cleared id err) :
    Woken (s.pushBack t id err) := by
  obtain ⟨hasToSend, cur, hl, hcur, hpos, hiff⟩ := h.owned.pushBack_cases hpc
  rw [hl]
  intro _ hz hne
  have hne' : s.pool.items cur ≠ [] := by
    rw [← current_some hcur]
    exact hne
  have hgo : hasToSend = true := hiff.mpr ⟨hz, hne'⟩
  refine ⟨t, ?_⟩
  change (Function.update s.thread t (.pushed err hasToSend) t).returning = true
  rw [Function.update_self]
  exact hgo

theorem Ready.woken (h : Ready s) (w : Woken s) {op : SendOp α} (hs : s.step op = some s') : Woken s' := by
  -- the moves of a thread that touch neither the pool nor the connection
  have goto : ∀ {t : Nat} {pc : SendPC α}, ((s.thread t).returning = true → pc.returning = true) → Woken (s.goto t pc) :=
    fun hpc => w.keep rfl hpc id rfl rfl
  cases Move.of_step hs with
  | enter idle => exact goto fun hr => by rw [idle] at hr; cases hr
  | refuse => exact w
  | lock entered => exact h.lock_woken entered
  | @wsaSend t _ fail popped =>
    have hr : ∀ pc : SendPC α, (s.thread t).returning = true → pc.returning = true := by
      intro pc hr
      rw [popped] at hr
      cases hr
    cases fail with
    | none => exact w.keep rfl (hr _) (fun hc => hc) rfl rfl
    | some err => exact w.keep rfl (hr _) (fun hc => hc) rfl rfl
  | complete idle => exact w.keep rfl (fun hr => by rw [idle] at hr; cases hr) (fun hc => hc) rfl rfl
  | @clear t id _ ended =>
    have hout := (h.owned.holders.held t id (by rw [ended]; rfl)).1
    exact w.keep rfl (fun hr => by rw [ended] at hr; cases hr) (fun hc => hc) rfl
      (current_congr rfl fun k hk => SOVPool.items_setItems_of_ne s.pool (h.owned.ne_out hk hout).symm [])
  | pushBack cleared => exact h.pushBack_woken cleared
  | stop => exact goto fun _ => rfl
  | wake => exact goto fun _ => rfl
  | rest pushed => exact goto fun hr => by rw [pushed] at hr; cases hr
  | resume => exact goto fun _ => rfl
  | giveUp _ off => exact fun hc => absurd (off.symm.trans hc) Bool.false_ne_true
  | leave => exact fun hc => by cases hc
  | @conn actor _ _ bare _ init =>
    obtain ⟨new, p, hp, hitems, _⟩ := h.owned.conn bare actor
    cases Option.some.inj (hp.symm.trans init)
    exact fun _ _ hne => absurd hitems hne
  | @connFails actor bare _ init =>
    obtain ⟨new, p, hp, _⟩ := h.owned.conn bare actor
    cases hp.symm.trans init
  | disconnect => exact fun hc => by cases hc
  | @otherPop actor _ _ alloc =>
    obtain ⟨id, p, hp, same, _⟩ := h.owned.otherPop actor
    cases Option.some.inj (hp.symm.trans alloc)
    exact w.others rfl (fun hc => hc) rfl (current_congr rfl fun k hk => same k (Or.inl hk))
  | otherFill held =>
    obtain ⟨same, _⟩ := h.owned.otherFill held _
    exact w.others rfl (fun hc => hc) rfl (current_congr rfl fun k hk => same k (Or.inl hk))
  | otherPush held =>
    obtain ⟨same, _⟩ := h.owned.otherPush held
    exact w.others rfl (fun hc => hc) rfl (current_congr rfl fun k hk => same k (Or.inl hk))

/-- Every accepted `Buf` is in one `SOV` that was submitted or is still pending. -/
def Accounted (s : Sender α) : Prop := s.accepted.Perm (s.handed.flatten ++ s.pending)

theorem Ready.accounted (h : Ready s) (a : Accounted s) {op : SendOp α} (hs : s.step op = some s') : Accounted s' := by
  unfold Accounted at a ⊢
  obtain ⟨_, moved⟩ := h.step hs
  cases moved with
  | accept added accepted handed pending _ =>
    rw [accepted, handed, pending, ← List.append_assoc]
    exact a.append_right added
  | submit id pc accepted handed pending =>
    rw [accepted, handed, pending, List.flatten_append, List.flatten_singleton, List.append_assoc,
      ← List.append_assoc (s.pool.items id)]
    have hid := (h.owned.holders.inHand id).mpr ⟨_, pc⟩
    have hperm := (List.perm_cons_erase hid).flatMap_right s.pool.items
    rw [List.flatMap_cons] at hperm
    exact a.trans ((hperm.append_right s.current).append_left s.handed.flatten)

end Sender

end Ven
