import Ven.ReceiverInv

namespace Ven

variable {σ : Type} {P : IMemPool σ} {C : PoolContract P} {lim : Nat}

/-- One send array can be singled out: what the others hold is not touched by changing it. -/
theorem heldBy_sends {sends : List (BufArray Buf)} {a : Nat} {x : BufArray Buf} (h : sends[a]? = some x) :
    ∃ rest, heldBy (sends.flatMap BufArray.items) = heldBy x.items + rest ∧
      ∀ y, heldBy ((sends.set a y).flatMap BufArray.items) = heldBy y.items + rest := by
  induction sends generalizing a with
  | nil => simp at h
  | cons z zs ih =>
    cases a with
    | zero =>
      have he : z = x := by simpa using h
      subst he
      exact ⟨heldBy (zs.flatMap BufArray.items), by simp [heldBy_append], by simp [heldBy_append]⟩
    | succ a =>
      obtain ⟨rest, hx, hset⟩ := ih (by simpa using h)
      refine ⟨heldBy z.items + rest, ?_, ?_⟩
      · rw [List.flatMap_cons, heldBy_append, hx]
        exact add_left_comm _ _ _
      · intro y
        rw [List.set_cons_succ, List.flatMap_cons, heldBy_append, hset y]
        exact add_left_comm _ _ _

theorem mem_sends_set {sends : List (BufArray Buf)} {a : Nat} {y : BufArray Buf} {b : Buf}
    (hb : b ∈ (sends.set a y).flatMap BufArray.items) :
    b ∈ sends.flatMap BufArray.items ∨ b ∈ y.items := by
  obtain ⟨z, hz, hbz⟩ := List.mem_flatMap.mp hb
  rcases List.mem_or_eq_of_mem_set hz with hz | rfl
  · exact Or.inl (List.mem_flatMap.mpr ⟨z, hz, hbz⟩)
  · exact Or.inr hbz

namespace Receiver

theorem heldBy_userBufs (s : Receiver σ) :
    heldBy s.userBufs = s.cur.held + (heldBy s.kept + heldBy (s.sends.flatMap BufArray.items)) := by
  rw [userBufs, heldBy_cons, heldBy_append]

end Receiver

open Receiver

theorem BufArray.pushBack_items {α : Type} {a a' : BufArray α} {x : α} (h : a.pushBack x = some a') :
    a'.items = a.items ++ [x] := by
  unfold BufArray.pushBack at h
  split at h
  next => cases h
  next => cases Option.some.inj h; rfl

theorem Beside.refl (C : PoolContract P) {s : Receiver σ} (i : ReceiverInv C lim s) : Beside s s := by
  refine ⟨rfl, fun id hid => ?_, rfl, rfl⟩
  obtain ⟨_, _, m, ok⟩ := i.block id hid
  exact SameBlock.of_eq ok.live rfl

/-- Copying a `Buf` that is already one of ours. -/
theorem ReceiverInv.copy {s : Receiver σ} (i : ReceiverInv C lim s) {b : Buf} (hb : b ∈ s.userBufs) :
    ReceiverInv C lim { s with ram := (Buf.copy s.ram b).2, kept := (Buf.copy s.ram b).1 :: s.kept } ∧
      Beside s { s with ram := (Buf.copy s.ram b).2, kept := (Buf.copy s.ram b).1 :: s.kept } := by
  obtain ⟨rest, hrest⟩ := heldBy_mem hb
  have hsplit : s.holders = b.held + (s.othersHeld + (s.rbuf.buf.held + rest)) := by
    rw [holders, mine, hrest]
    abel
  have hpool := i.pool
  rw [hsplit] at hpool
  obtain ⟨hinv, hsame⟩ := C.copy_spec hpool
  rw [← hsplit] at hinv hsame
  let s' : Receiver σ := { s with ram := (Buf.copy s.ram b).2, kept := (Buf.copy s.ram b).1 :: s.kept }
  have held : heldBy s'.userBufs = (Buf.copy s.ram b).1.held + heldBy s.userBufs := by
    rw [heldBy_userBufs, heldBy_userBufs, heldBy_cons]
    abel
  refine ⟨?_, rfl, fun id hid => hsame id (mem_holders (rbuf_mine hid)), rfl, rfl⟩
  refine i.settle_all rfl rfl ?_ ?_ (fun k _ hno => hno) ?_
  · change C.Inv _ (s.othersHeld + (s.rbuf.buf.held + heldBy _))
    rw [held]
    have he : s.othersHeld + (s.rbuf.buf.held + ((Buf.copy s.ram b).1.held + heldBy s.userBufs)) =
        (Buf.copy s.ram b).1.held + s.holders := by
      rw [holders, mine]
      abel
    rwa [he]
  · intro k hk
    refine ⟨?_, hsame k (mem_holders hk)⟩
    change k ∈ s.rbuf.buf.held + heldBy _
    rw [held]
    rcases Multiset.mem_add.mp hk with h | h
    · exact Multiset.mem_add.mpr (Or.inl h)
    · exact Multiset.mem_add.mpr (Or.inr (Multiset.mem_add.mpr (Or.inr h)))
  · intro c hc hm
    have hcases : c = (Buf.copy s.ram b).1 ∨ c ∈ s.userBufs := by
      rcases List.mem_cons.mp hc with hc | hc
      · exact Or.inr (hc ▸ List.mem_cons_self)
      · rcases List.mem_append.mp hc with hc | hc
        · rcases List.mem_cons.mp hc with hc | hc
          · exact Or.inl hc
          · exact Or.inr (List.mem_cons_of_mem _ (List.mem_append_left _ hc))
        · exact Or.inr (List.mem_cons_of_mem _ (List.mem_append_right _ hc))
    rcases hcases with hc | hc
    · have hcopy : c = b := by
        unfold Buf.copy at hc
        split at hc
        next => exact absurd (by rw [hc]; rfl) hm
        next => exact hc
      exact hcopy ▸ hb
    · exact hc

/-- Moving a `Buf` into a send array. -/
theorem ReceiverInv.pushBack {s s' : Receiver σ} (i : ReceiverInv C lim s) (hr : s'.rbuf = s.rbuf)
    (hf : s'.frames = s.frames) (hram : s'.ram = s.ram) (hothers : s'.othersHeld = s.othersHeld)
    (hrecv : s'.isReceiving = s.isReceiving) (held : heldBy s'.userBufs = heldBy s.userBufs)
    (owned : ∀ b ∈ s'.userBufs, b.mem ≠ none → b ∈ s.userBufs) :
    ReceiverInv C lim s' ∧ Beside s s' := by
  have hmine : s'.mine = s.mine := by rw [mine, mine, hr, held]
  have hpool : C.Inv s'.ram s'.holders := by
    rw [hram, holders, hothers, hmine]
    exact i.pool
  have same : ∀ k ∈ s.mine, SameBlock s.ram.heap s'.ram.heap k := by
    intro k hk
    obtain ⟨m, hm⟩ := C.live i.pool (mem_holders hk)
    exact SameBlock.of_eq hm (by rw [hram])
  refine ⟨?_, hr, fun id hid => same id (rbuf_mine hid), hrecv, by rw [hf]⟩
  exact i.settle_all hr hf hpool (fun k hk => ⟨hmine ▸ hk, same k hk⟩) (fun k _ hno => hothers ▸ hno) owned

/-- `send` of the `Buf` that `on_recv` was passed. -/
theorem ReceiverInv.sendCur {s : Receiver σ} (i : ReceiverInv C lim s) {a : Nat} {slist slist' : BufArray Buf}
    (ha : s.sends[a]? = some slist) (hp : slist.pushBack s.cur = some slist') :
    ReceiverInv C lim { s with sends := s.sends.set a slist', cur := s.cur.dettach.2 } ∧
      Beside s { s with sends := s.sends.set a slist', cur := s.cur.dettach.2 } := by
  have hitems := BufArray.pushBack_items hp
  obtain ⟨rest, hx, hset⟩ := heldBy_sends ha
  refine i.pushBack rfl rfl rfl rfl rfl ?_ ?_
  · rw [heldBy_userBufs, heldBy_userBufs, hx]
    change Buf.null.held + (heldBy s.kept + heldBy ((s.sends.set a slist').flatMap _)) = _
    rw [hset, hitems, heldBy_append, heldBy_cons, heldBy_nil, Buf.held_null]
    abel
  · intro b hb hm
    rcases List.mem_cons.mp hb with rfl | hb
    · exact absurd rfl hm
    rcases List.mem_append.mp hb with hb | hb
    · exact List.mem_cons_of_mem _ (List.mem_append_left _ hb)
    rcases mem_sends_set hb with hb | hb
    · exact List.mem_cons_of_mem _ (List.mem_append_right _ hb)
    rw [hitems] at hb
    rcases List.mem_append.mp hb with hb | hb
    · exact List.mem_cons_of_mem _ (List.mem_append_right _
        (List.mem_flatMap.mpr ⟨slist, List.mem_of_getElem? ha, hb⟩))
    · cases List.mem_singleton.mp hb
      exact List.mem_cons_self

/-- `send` of a copy that the user kept. -/
theorem ReceiverInv.sendKept {s : Receiver σ} (i : ReceiverInv C lim s) {j a : Nat} {b : Buf}
    {slist slist' : BufArray Buf} (hb : s.kept[j]? = some b) (ha : s.sends[a]? = some slist)
    (hp : slist.pushBack b = some slist') :
    ReceiverInv C lim { s with sends := s.sends.set a slist', kept := s.kept.set j b.dettach.2 } ∧
      Beside s { s with sends := s.sends.set a slist', kept := s.kept.set j b.dettach.2 } := by
  have hitems := BufArray.pushBack_items hp
  obtain ⟨rest, hx, hset⟩ := heldBy_sends ha
  obtain ⟨hk, hkset⟩ := heldBy_split hb
  refine i.pushBack rfl rfl rfl rfl rfl ?_ ?_
  · rw [heldBy_userBufs, heldBy_userBufs, hx, hk]
    change s.cur.held + (heldBy (s.kept.set j Buf.null) + heldBy ((s.sends.set a slist').flatMap _)) = _
    rw [hset, hkset, hitems, heldBy_append, heldBy_cons, heldBy_nil, Buf.held_null]
    abel
  · intro c hc hm
    rcases List.mem_cons.mp hc with rfl | hc
    · exact List.mem_cons_self
    rcases List.mem_append.mp hc with hc | hc
    · rcases List.mem_or_eq_of_mem_set hc with hc | rfl
      · exact List.mem_cons_of_mem _ (List.mem_append_left _ hc)
      · exact absurd rfl hm
    rcases mem_sends_set hc with hc | hc
    · exact List.mem_cons_of_mem _ (List.mem_append_right _ hc)
    rw [hitems] at hc
    rcases List.mem_append.mp hc with hc | hc
    · exact List.mem_cons_of_mem _ (List.mem_append_right _
        (List.mem_flatMap.mpr ⟨slist, List.mem_of_getElem? ha, hc⟩))
    · cases List.mem_singleton.mp hc
      exact List.mem_cons_of_mem _ (List.mem_append_left _ (List.mem_of_getElem? hb))

theorem ReceiverInv.dropKept {s : Receiver σ} (i : ReceiverInv C lim s) {j : Nat} {b : Buf}
    (hb : s.kept[j]? = some b) :
    ReceiverInv C lim (expire { s with ram := Buf.destroy P s.ram b, kept := s.kept.eraseIdx j }) ∧
      Beside s (expire { s with ram := Buf.destroy P s.ram b, kept := s.kept.eraseIdx j }) := by
  obtain ⟨hk, _⟩ := heldBy_split hb
  have hold : s.holders = b.held + (s.othersHeld + (s.rbuf.buf.held + (s.cur.held +
      (heldBy (s.kept.eraseIdx j) + heldBy (s.sends.flatMap BufArray.items))))) := by
    rw [holders, mine, heldBy_userBufs, hk]
    abel
  have hpool := i.pool
  rw [hold] at hpool
  obtain ⟨hinv, hsame⟩ := C.destroy_spec hpool
  have hheld : ({ s with ram := Buf.destroy P s.ram b, kept := s.kept.eraseIdx j } : Receiver σ).holders =
      s.othersHeld + (s.rbuf.buf.held + (s.cur.held +
        (heldBy (s.kept.eraseIdx j) + heldBy (s.sends.flatMap BufArray.items)))) := by
    rw [holders, mine, heldBy_userBufs]
    rfl
  refine ⟨i.settle rfl rfl (hheld ▸ hinv) ?_ (fun k _ hno => hno) ?_, rfl, ?_, rfl, expire_data _⟩
  · exact fun k _ hk' => hsame k (hheld ▸ mem_holders hk')
  · intro c hc _
    rcases List.mem_cons.mp hc with rfl | hc
    · exact List.mem_cons_self
    rcases List.mem_append.mp hc with hc | hc
    · exact List.mem_cons_of_mem _ (List.mem_append_left _ (List.mem_of_mem_eraseIdx hc))
    · exact List.mem_cons_of_mem _ (List.mem_append_right _ hc)
  · intro id hid
    apply hsame id
    simp [Buf.held, hid]

/-- A send array is cleared when its send has completed. -/
theorem ReceiverInv.clear {s : Receiver σ} (i : ReceiverInv C lim s) {a : Nat} {slist : BufArray Buf}
    (ha : s.sends[a]? = some slist) :
    ReceiverInv C lim
        (expire { s with ram := (slist.clear P s.ram).2, sends := s.sends.set a (slist.clear P s.ram).1 }) ∧
      Beside s (expire { s with ram := (slist.clear P s.ram).2, sends := s.sends.set a (slist.clear P s.ram).1 }) := by
  obtain ⟨rest, hx, hset⟩ := heldBy_sends ha
  have hold : s.holders = heldBy slist.items + (s.othersHeld + (s.rbuf.buf.held + (s.cur.held +
      (heldBy s.kept + rest)))) := by
    rw [holders, mine, heldBy_userBufs, hx]
    abel
  have hpool := i.pool
  rw [hold] at hpool
  obtain ⟨hinv, hsame⟩ := C.destroyAll_spec slist.items hpool
  let s' : Receiver σ :=
    { s with ram := (slist.clear P s.ram).2, sends := s.sends.set a (slist.clear P s.ram).1 }
  have hheld : s'.holders = s.othersHeld + (s.rbuf.buf.held + (s.cur.held + (heldBy s.kept + rest))) := by
    rw [holders, mine, heldBy_userBufs]
    change s.othersHeld + (s.rbuf.buf.held + (s.cur.held + (heldBy s.kept +
      heldBy ((s.sends.set a (slist.clear P s.ram).1).flatMap BufArray.items)))) = _
    rw [hset]
    simp [BufArray.clear]
  refine ⟨i.settle rfl rfl (hheld ▸ hinv) ?_ (fun k _ hno => hno) ?_, rfl, ?_, rfl, expire_data _⟩
  · exact fun k _ hk' => hsame k (hheld ▸ mem_holders hk')
  · intro c hc _
    rcases List.mem_cons.mp hc with rfl | hc
    · exact List.mem_cons_self
    rcases List.mem_append.mp hc with hc | hc
    · exact List.mem_cons_of_mem _ (List.mem_append_left _ hc)
    rcases mem_sends_set hc with hc | hc
    · exact List.mem_cons_of_mem _ (List.mem_append_right _ hc)
    · simp [BufArray.clear] at hc
  · intro id hid
    apply hsame id
    simp [Buf.held, hid]

/-- Another user of the pool writes to a block it holds. -/
theorem ReceiverInv.write {s : Receiver σ} (i : ReceiverInv C lim s) {j id : Nat} (pos : Nat) (data : List UInt8)
    (hid : s.others[j]?.bind Buf.mem = some id)
    (hfit : pos + data.length ≤ ((s.ram.heap id).map Mem.unit).getD 0) :
    ReceiverInv C lim (mark { s with ram := s.ram.store id pos data } [⟨id, pos, data.length⟩]) ∧
      Beside s (mark { s with ram := s.ram.store id pos data } [⟨id, pos, data.length⟩]) := by
  obtain ⟨b, hb, hbm⟩ := Option.bind_eq_some_iff.mp hid
  have hother : id ∈ s.othersHeld :=
    Multiset.mem_add.mpr (Or.inl (mem_heldBy (List.mem_of_getElem? hb) hbm))
  have hin : id ∈ s.holders := Multiset.mem_add.mpr (Or.inl hother)
  obtain ⟨m, hm⟩ := C.live i.pool hin
  have hfit' : pos + data.length ≤ m.unit := by simpa [hm] using hfit
  let s' : Receiver σ := { s with ram := s.ram.store id pos data }
  have same : ∀ k ∈ s.mine, k ≠ id → SameBlock s.ram.heap s'.ram.heap k := by
    intro k hk hne
    obtain ⟨n, hn⟩ := C.live i.pool (mem_holders hk)
    exact SameBlock.of_eq hn (Heap.store_of_ne _ hne pos data)
  have alone : ∀ f ∈ s.frames, f.live = true → f.mem ≠ id := by
    intro f hf hl he
    exact (i.frames f hf hl).alone (he ▸ hother)
  have hmark : s'.mark [⟨id, pos, data.length⟩] = s' := by
    apply mark_eq
    intro f hf hl w hw
    cases List.mem_singleton.mp hw
    exact touches_other (Heap.store_self hm pos data) hfit' (fun he => absurd he.symm (alone f hf hl))
  change ReceiverInv C lim (s'.mark _) ∧ Beside s (s'.mark _)
  rw [hmark]
  refine ⟨⟨C.store pos data i.pool hin, ?_, i.default, ?_, i.clean, i.apart, i.owned⟩, rfl, ?_, rfl, rfl⟩
  · intro k hk
    obtain ⟨hno, hlim, n, ok⟩ := i.block k hk
    obtain ⟨n', ok', _, _⟩ := ok.of_same (same k (rbuf_mine hk) (fun he => hno (he ▸ hother)))
    exact ⟨hno, hlim, n', ok'⟩
  · intro f hf hl
    have ok := i.frames f hf hl
    exact ⟨ok.held, ok.alone, ((same f.mem ok.held (alone f hf hl)).load _ _).trans ok.data, ok.below⟩
  · intro k hk
    exact same k (rbuf_mine hk) (fun he => (i.block k hk).1 (he ▸ hother))

/-- Whatever the user and the other users of the pool do, the invariant stays. -/
theorem ReceiverInv.user {s : Receiver σ} (i : ReceiverInv C lim s) (op : UserOp) :
    ReceiverInv C lim (s.user P op) ∧ Beside s (s.user P op) := by
  have refl : ReceiverInv C lim s ∧ Beside s s := ⟨i, Beside.refl C i⟩
  cases op with
  | copy => exact i.copy List.mem_cons_self
  | copyKept j =>
    simp only [Receiver.user]
    split
    next => exact refl
    next cls hc =>
      exact i.copy (List.mem_cons_of_mem _ (List.mem_append_left _ (List.mem_of_getElem? hc)))
  | send a =>
    simp only [Receiver.user]
    split
    next => exact refl
    next =>
      split
      next => exact refl
      next slist ha =>
        split
        next => exact refl
        next slist' hp => exact i.sendCur ha hp
  | sendKept j a =>
    simp only [Receiver.user]
    split
    next b slist hb ha =>
      split
      next => exact refl
      next =>
        split
        next => exact refl
        next slist' hp => exact i.sendKept hb ha hp
    next => exact refl
  | dropKept j =>
    simp only [Receiver.user]
    split
    next => exact refl
    next b hb => exact i.dropKept hb
  | clear a =>
    simp only [Receiver.user]
    split
    next => exact refl
    next slist ha => exact i.clear ha
  | other op =>
    simp only [Receiver.user]
    split
    next => exact refl
    next t ht =>
      obtain ⟨hinv, hsame⟩ := bufVars_step_frame C (s := ⟨s.ram, s.others, s.dettached⟩) (K := s.mine)
        i.pool ht
      refine ⟨i.settle rfl rfl hinv ?_ ?_ (fun b hb _ => hb), rfl, ?_, rfl, expire_data _⟩
      · exact fun k hk _ => (hsame k hk).1
      · exact fun k hk hno => (hsame k hk).2 hno
      · exact fun id hid => (hsame id (rbuf_mine hid)).1
  | write j pos data =>
    simp only [Receiver.user]
    split
    next => exact refl
    next id hid =>
      split
      next => exact refl
      next hfit => exact i.write pos data hid (Nat.not_lt.mp hfit)
  | disconnect =>
    refine ⟨i.disconnect 0, ?_⟩
    simp only [Receiver.user, Receiver.disconnect]
    split
    next => exact ⟨rfl, refl.2.block, rfl, rfl⟩
    next => exact refl.2

theorem ReceiverInv.users {s : Receiver σ} (i : ReceiverInv C lim s) (ops : List UserOp) :
    ReceiverInv C lim (s.users P ops) ∧ Beside s (s.users P ops) := by
  induction ops generalizing s with
  | nil => exact ⟨i, Beside.refl C i⟩
  | cons op ops ih =>
    obtain ⟨hi, hb⟩ := i.user op
    obtain ⟨hi', hb'⟩ := ih hi
    exact ⟨hi', hb.trans hb'⟩

/-- Only `disconnect` changes the flag. -/
theorem Receiver.user_connected {s : Receiver σ} {op : UserOp} (h : op ≠ .disconnect) :
    (s.user P op).isConnected = s.isConnected ∧ (s.user P op).dovErr = s.dovErr := by
  cases op with
  | disconnect => exact absurd rfl h
  | copy => exact ⟨rfl, rfl⟩
  | _ =>
    simp only [Receiver.user]
    (repeat' split) <;> exact ⟨rfl, rfl⟩

theorem Receiver.users_connected {s : Receiver σ} {ops : List UserOp} (h : .disconnect ∉ ops) :
    (s.users P ops).isConnected = s.isConnected ∧ (s.users P ops).dovErr = s.dovErr := by
  induction ops generalizing s with
  | nil => exact ⟨rfl, rfl⟩
  | cons op ops ih =>
    obtain ⟨hne, hrest⟩ := not_or.mp (fun hm => h (List.mem_cons.mpr hm))
    obtain ⟨hc, he⟩ := user_connected (P := P) (s := s) (Ne.symm hne)
    obtain ⟨hc', he'⟩ := ih (s := s.user P op) hrest
    exact ⟨hc'.trans hc, he'.trans he⟩

end Ven
