import Ven.SendOwners

namespace Ven

variable {α : Type}

namespace Sender

variable {s : Sender α}

theorem Owned.ne_out (h : Owned s) {cur id : Nat} (hs : s.sbuf.sov = some cur) (hid : id ∈ s.out) : id ≠ cur := by
  intro hic
  subst hic
  exact ((h.apart id).1 hs).1 hid

theorem Owned.hand_out (h : Owned s) {id : Nat} (hid : id ∈ s.hand) : id ∈ s.out := by
  obtain ⟨u, hu⟩ := (h.holders.inHand id).mp hid
  exact (h.holders.held u id (Holders.popped_sov hu)).1

theorem Owned.cleared_out (h : Owned s) {u id err : Nat} (hu : s.thread u = .cleared id err) : id ∈ s.out :=
  (h.holders.held u id (by rw [hu]; rfl)).1

theorem Owned.wsaSend (h : Owned s) {t id : Nat} (hpc : s.thread t = .popped id) (fail : Option Nat) :
    Owned (s.wsaSend t id fail) := by
  have filled : ∀ k ∈ s.hand.erase id, s.pool.items k ≠ [] := fun k hk => h.filled k (List.mem_of_mem_erase hk)
  cases fail with
  | none =>
    exact ⟨h.pool, h.holders.submit hpc, h.room, h.popCnt, h.usable, h.none_out, filled,
      fun u k err hu => h.cleared u k err (cleared_of_update (fun _ _ hid => (by cases hid)) hu)⟩
  | some err =>
    exact ⟨h.pool, h.holders.submitFail hpc err, h.room, h.popCnt, h.usable, h.none_out, filled,
      fun u k err hu => h.cleared u k err (cleared_of_update (fun _ _ hid => (by cases hid)) hu)⟩

theorem Owned.complete (h : Owned s) {t id : Nat} (hpc : s.thread t = .idle) (hid : id ∈ s.inflight) (err : Nat) :
    Owned { s.goto t (.ended id err) with inflight := s.inflight.erase id } :=
  ⟨h.pool, h.holders.complete hpc hid err, h.room, h.popCnt, h.usable, h.none_out, h.filled,
    fun u k err hu => h.cleared u k err (cleared_of_update (fun _ _ hid => (by cases hid)) hu)⟩

theorem Owned.clear (h : Owned s) {t id err : Nat} (hpc : s.thread t = .ended id err) :
    Owned { s.goto t (.cleared id err) with pool := s.pool.clear id } := by
  have hsov : (s.thread t).sov = some id := by
    rw [hpc]
    rfl
  have hout := (h.holders.held t id hsov).1
  have hok : (s.pool.clear id).Ok s.busy := h.pool.setItems (mem_busy.mpr (Or.inr (Or.inl hout))) []
  have hother : ∀ k, k ≠ id → (s.pool.clear id).items k = s.pool.items k :=
    fun k hk => SOVPool.items_setItems_of_ne s.pool hk []
  have hhand : id ∉ s.hand := by
    intro hin
    obtain ⟨u, hu⟩ := (h.holders.inHand id).mp hin
    have hut := h.holders.alone u t id (Holders.popped_sov hu) hsov
    rw [hut, hpc] at hu
    cases hu
  refine ⟨hok, h.holders.move ?_ ?_ ?_, fun k hk => ?_, h.popCnt, h.usable, h.none_out, fun k hk => ?_,
    fun u k err' hu => ?_⟩
  · rw [hsov]
    rfl
  · intro k hk
    rw [hpc] at hk
    cases hk
  · exact fun k hk => by cases hk
  · change ((s.pool.clear id).items k).length < s.pool.arrCnt
    rw [hother k (h.ne_out hk hout).symm]
    exact h.room k hk
  · change (s.pool.clear id).items k ≠ []
    have hne : k ≠ id := by
      intro hki
      subst hki
      exact hhand hk
    rw [hother k hne]
    exact h.filled k hk
  · change (s.pool.clear id).items k = []
    by_cases hki : k = id
    · subst hki
      exact SOVPool.items_setItems_self s.pool k []
    · rw [hother k hki]
      by_cases hut : u = t
      · subst hut
        change Function.update s.thread u (.cleared id err) u = _ at hu
        rw [Function.update_self] at hu
        cases hu
        exact absurd rfl hki
      · change Function.update s.thread t (.cleared id err) u = _ at hu
        rw [Function.update_of_ne hut] at hu
        exact h.cleared u k err' hu

/-- What the `s_lock_` section of `_on_send` does. It never finds the counter at zero, and it tells the
thread to send on where nothing is being sent any more and something is waiting. -/
theorem Owned.pushBack_cases (h : Owned s) {t id err : Nat} (hpc : s.thread t = .cleared id err) :
    ∃ hasToSend cur, s.pushBack t id err = { s.goto t (.pushed err hasToSend) with
        sbuf := { s.sbuf with popCnt := s.sbuf.popCnt - 1 }
        pool := s.pool.push id
        out := s.out.erase id } ∧
      s.sbuf.sov = some cur ∧ 0 < s.sbuf.popCnt ∧
      (hasToSend = true ↔ s.sbuf.popCnt - 1 = 0 ∧ s.pool.items cur ≠ []) := by
  have hout := h.cleared_out hpc
  cases hs : s.sbuf.sov with
  | none =>
    rw [h.none_out hs] at hout
    cases hout
  | some cur =>
    have hpos : 0 < s.sbuf.popCnt := by
      rw [h.popCnt]
      exact List.length_pos_of_mem hout
    have husable : s.sbuf.pool = true := by
      rw [h.usable, hs]
      rfl
    have hback : s.sbuf.pushSov s.pool id = some ({ s.sbuf with popCnt := s.sbuf.popCnt - 1 }, s.pool.push id) := by
      rw [SBuf.pushSov, if_pos husable, pred32_of_pos hpos]
    unfold Sender.pushBack SBuf.hasToSend
    rw [hback]
    dsimp only
    rw [hs]
    by_cases hz : s.sbuf.popCnt - 1 = 0
    · refine ⟨!((s.pool.push id).sovs cur).slist.empty, cur, ?_, rfl, hpos, ?_⟩
      · simp [SBuf.isSending, hz]
      · have hitems : ((s.pool.push id).sovs cur).slist.items = s.pool.items cur := rfl
        simp [BufArray.empty, hz, hitems]
    · refine ⟨false, cur, ?_, rfl, hpos, ?_⟩
      · have hsend : 0 < s.sbuf.popCnt - 1 := by omega
        simp [SBuf.isSending, hsend]
      · simp [hz]

theorem Owned.pushBack (h : Owned s) {t id err : Nat} (hpc : s.thread t = .cleared id err) :
    Owned (s.pushBack t id err) ∧ (s.pushBack t id err).crashed = s.crashed := by
  obtain ⟨hasToSend, cur, hl, hs, hpos, _⟩ := h.pushBack_cases hpc
  have hout := h.cleared_out hpc
  have hempty := h.cleared t id err hpc
  rw [hl]
  have hok : s.pool.Ok (id ::ₘ ((s.sbuf.sov.toList : Multiset Nat) + (s.out.erase id : Multiset Nat) +
      (s.away : Multiset Nat))) := by
    have hw := h.pool
    have hcons : (s.out : Multiset Nat) = id ::ₘ (s.out.erase id : Multiset Nat) :=
      Multiset.coe_eq_coe.mpr (List.perm_cons_erase hout)
    rw [busy, hcons, Multiset.add_cons, Multiset.cons_add] at hw
    exact hw
  refine ⟨⟨hok.push hempty, h.holders.back hpc rfl, h.room, ?_, h.usable, fun hn => ?_, h.filled,
    fun u k err' hu => ?_⟩, rfl⟩
  · change s.sbuf.popCnt - 1 = (s.out.erase id).length
    rw [List.length_erase_of_mem hout, h.popCnt]
  · change s.sbuf.sov = none at hn
    rw [hs] at hn
    cases hn
  · exact h.cleared u k err' (cleared_of_update (fun _ _ hid => (by cases hid)) hu)

theorem Owned.conn (h : Owned s) (hnull : s.sbuf = SBuf.null) (actor : Nat) :
    ∃ new pool, SBuf.init actor s.pool = some (⟨some actor, true, some new, 0⟩, pool) ∧
      pool.items new = [] ∧ s.pool.Same pool s.busy ∧
      Owned { s with isConnected := true, sbuf := ⟨some actor, true, some new, 0⟩, pool := pool } := by
  have hnone : s.sbuf.sov = none := by
    rw [hnull]
    rfl
  have hout := h.none_out hnone
  obtain ⟨new, p, hp, hok, hitems, same⟩ := SBuf.init_spec actor h.pool
  refine ⟨new, p, hp, hitems, same, ?_, h.holders, fun id hid => ?_, ?_, rfl, fun hn => (by cases hn), fun id hid => ?_,
    fun u id err hu => ?_⟩
  · have hbusy : new ::ₘ s.busy = (([new] : List Nat) : Multiset Nat) + (s.out : Multiset Nat) +
        (s.away : Multiset Nat) := by
      rw [busy, hnone, hout]
      rfl
    rw [hbusy] at hok
    exact hok
  · cases Option.some.inj hid
    change (p.items new).length < p.arrCnt
    rw [hitems]
    exact hok.room
  · change 0 = s.out.length
    rw [hout]
    rfl
  · have hin := h.hand_out hid
    rw [hout] at hin
    cases hin
  · have hin := h.cleared_out hu
    rw [hout] at hin
    cases hin

/-- Other sessions do not touch what this one owns. -/
theorem Owned.others (h : Owned s) {p : SOVPool α} {away : List Nat}
    (hok : p.Ok ((s.sbuf.sov.toList : Multiset Nat) + (s.out : Multiset Nat) + (away : Multiset Nat)))
    (harr : p.arrCnt = s.pool.arrCnt) (same : ∀ id, s.sbuf.sov = some id ∨ id ∈ s.out → p.items id = s.pool.items id) :
    Owned { s with pool := p, away := away } := by
  refine ⟨hok, h.holders, fun id hid => ?_, h.popCnt, h.usable, h.none_out, fun id hid => ?_, fun u id err hu => ?_⟩
  · change (p.items id).length < p.arrCnt
    rw [same id (Or.inl hid), harr]
    exact h.room id hid
  · change p.items id ≠ []
    rw [same id (Or.inr (h.hand_out hid))]
    exact h.filled id hid
  · change p.items id = []
    rw [same id (Or.inr (h.cleared_out hu))]
    exact h.cleared u id err hu

theorem Owned.otherPop (h : Owned s) (actor : Nat) :
    ∃ id p, ({ SBuf.null with actor := some actor, pool := true } : SBuf).alloc s.pool = some (id, p) ∧
      (∀ k, s.sbuf.sov = some k ∨ k ∈ s.out → p.items k = s.pool.items k) ∧
      Owned { s with pool := p, away := id :: s.away } := by
  obtain ⟨id, p, hp, hok, _, same⟩ :=
    SBuf.alloc_spec (b := { SBuf.null with actor := some actor, pool := true }) h.pool rfl
  have hsame : ∀ k, s.sbuf.sov = some k ∨ k ∈ s.out → p.items k = s.pool.items k := by
    intro k hk
    exact same.2 k (mem_busy.mpr (hk.elim Or.inl fun ho => Or.inr (Or.inl ho)))
  refine ⟨id, p, hp, hsame, h.others ?_ same.1 hsame⟩
  have hcons : id ::ₘ s.busy = (s.sbuf.sov.toList : Multiset Nat) + (s.out : Multiset Nat) +
      ((id :: s.away : List Nat) : Multiset Nat) := by
    rw [busy, ← Multiset.cons_coe, Multiset.add_cons]
  rw [hcons] at hok
  exact hok

theorem Owned.otherFill (h : Owned s) {id : Nat} (hid : id ∈ s.away) (items : List α) :
    (∀ k, s.sbuf.sov = some k ∨ k ∈ s.out → (s.pool.setItems id items).items k = s.pool.items k) ∧
      Owned { s with pool := s.pool.setItems id items } := by
  have hsame : ∀ k, s.sbuf.sov = some k ∨ k ∈ s.out → (s.pool.setItems id items).items k = s.pool.items k := by
    intro k hk
    refine SOVPool.items_setItems_of_ne s.pool ?_ items
    intro hki
    subst hki
    rcases hk with hk | hk
    · exact ((h.apart k).1 hk).2 hid
    · exact (h.apart k).2 hk hid
  exact ⟨hsame, h.others (h.pool.setItems (mem_busy.mpr (Or.inr (Or.inr hid))) items) rfl hsame⟩

theorem Owned.otherPush (h : Owned s) {id : Nat} (hid : id ∈ s.away) :
    (∀ k, s.sbuf.sov = some k ∨ k ∈ s.out → ((s.pool.clear id).push id).items k = s.pool.items k) ∧
      Owned { s with pool := (s.pool.clear id).push id, away := s.away.erase id } := by
  obtain ⟨hsame, hfill⟩ := h.otherFill hid []
  have hok : (s.pool.clear id).Ok (id ::ₘ ((s.sbuf.sov.toList : Multiset Nat) + (s.out : Multiset Nat) +
      (s.away.erase id : Multiset Nat))) := by
    have hw := hfill.pool
    have hcons : (s.away : Multiset Nat) = id ::ₘ (s.away.erase id : Multiset Nat) :=
      Multiset.coe_eq_coe.mpr (List.perm_cons_erase hid)
    have hbusy : busy { s with pool := s.pool.setItems id [] } = (s.sbuf.sov.toList : Multiset Nat) +
      (s.out : Multiset Nat) + (s.away : Multiset Nat) := rfl
    rw [hbusy, hcons, Multiset.add_cons] at hw
    exact hw
  exact ⟨hsame, h.others (hok.push (SOVPool.items_setItems_self s.pool id [])) rfl hsame⟩

end Sender

end Ven
