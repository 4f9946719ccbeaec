import Ven.ServerCalls
import Ven.Machine

namespace Ven

open Locks

variable {α : Type}

namespace SessionTCP

variable {s : SessionTCP α}

theorem unqueue_frame (s : SessionTCP α) (sov : Nat) : (s.unqueue sov).1.pooled = s.pooled ∧
    (s.unqueue sov).1.isServer = s.isServer ∧ (s.unqueue sov).1.isRelease = s.isRelease ∧
    (s.unqueue sov).1.gen = s.gen := by
  unfold unqueue
  split
  next => exact ⟨rfl, rfl, rfl, rfl⟩
  next =>
    dsimp only
    split
    next => exact ⟨rfl, rfl, rfl, rfl⟩
    next => exact ⟨rfl, rfl, rfl, rfl⟩

/-- The `SOV` of a completed send is back in the pool. -/
theorem Sound.unqueued (h : Sound 1 s) (sov : Nat) : Sound 0 (s.unqueue sov).1 := by
  unfold unqueue
  split
  next hnone => exact absurd hnone (h.pushable s.pool sov)
  next sbuf pool hpush =>
    have hs := h.pushed hpush
    dsimp only
    split
    next => exact hs.frame
    next => exact hs

/-- The session is off and in no pool, and nothing is outstanding on it. -/
structure Unpooled (s : SessionTCP α) : Prop where
  off : s.isConnected = false
  recvs : s.recvs = []
  sends : s.sends = []
  discs : s.discs = 0
  pooled : s.pooled = 0

end SessionTCP

namespace Server

open SessionTCP (Touched Sound Receiving)

variable {cnt hand i : Nat} {v v' : Server α} {f : ServerProg α → ServerProg α}

/-- `recv` when `WSARecv` pends. -/
theorem Ready.recv (h : Ready cnt hand v) (ok : Bool) (accepts : List Bool) :
    ∃ v', Handled cnt hand i ((v.session i).recv none ok id) v v' ∧
      ∀ k, (Server.recv i none ok accepts f k).run v = k.run v' := by
  let busy : SessionTCP α → SessionTCP α := fun s => { s with isReceiving := true }
  let posted : SessionTCP α → SessionTCP α := fun s => { s with recvs := s.gen :: s.recvs }
  by_cases hoff : (!(v.session i).isConnected) = true
  · refine ⟨v, ?_, fun k => ?_⟩
    · have hs : (v.session i).recv none ok id = v.session i := by
        unfold SessionTCP.recv
        exact if_pos hoff
      rw [hs]
      exact Handled.refl h.books i
    · unfold Server.recv
      rw [Prog.run_test, if_pos hoff]
  · have hbusy : Handled cnt hand i (busy (v.session i)) v (v.change i busy) := h.books.handled rfl rfl (h.books.release i)
    have hs : (v.session i).recv none ok id = posted (busy (v.session i)) := by
      unfold SessionTCP.recv
      rw [if_neg hoff]
    rw [hs]
    refine ⟨_, hbusy.change posted rfl rfl rfl, fun k => ?_⟩
    unfold Server.recv
    rw [Prog.run_test, if_neg hoff]
    rfl

/-- `_on_conn_init` of a session with nothing outstanding. -/
theorem Ready.connInit (h : Ready cnt hand v) (sound : Sound 0 (v.session i)) (hrecvs : (v.session i).recvs = [])
    (hsends : (v.session i).sends = []) (hdiscs : (v.session i).discs = 0) (hpooled : (v.session i).pooled = 0)
    {o : ServerOpening α} (regular : ServerCall.allRegular cnt o.onConn = true) (pends : o.fail = none) :
    ∃ v' s, Handled cnt hand i s v v' ∧ Sound 0 s ∧ ∀ k, (Server._on_conn_init i o k).run v = k.run v' := by
  have hopened := sound.openedUp hrecvs hsends hdiscs hpooled
  have opens := (v.session i).opened_spec
  have hup : Handled cnt hand i (v.session i).opened v (v.change i SessionTCP.opened) :=
    h.books.handled opens.pooled opens.isServer (opens.isRelease.trans (h.books.release i))
  obtain ⟨mid, hmid, hcall⟩ := callback_calls o.onConn regular hand _ (hup.ready h.elsewhere fun _ => hopened)
  have hready := (hup.ready h.elsewhere fun _ => hopened).called hmid
  obtain ⟨v', hv', hrun⟩ := hready.recv (i := i) (f := calls o.onDisc) o.ok o.accepts
  have hsteady := (hmid.touched i).steady (hup.session.symm ▸ hopened)
  have hidle : (mid.session i).isReceiving = false := by
    rw [hsteady.receiving, hup.session]
    exact opens.isReceiving
  refine ⟨v', _, (hup.trans (hmid.any i)).trans hv', hsteady.sound.recv SessionTCP.gentle_id hidle none o.ok, fun k => ?_⟩
  unfold Server._on_conn_init
  rw [Prog.run_update, hcall, pends, hrun]

/-- The packets of `_on_recv` are delivered. -/
theorem Ready.deliver (h : Ready cnt hand v) {g : Nat} (receiving : Receiving g (v.session i))
    {packets : List (List (ServerCall α))} (regular : packets.all (ServerCall.allRegular cnt) = true) :
    ∃ v' s, Handled cnt hand i s v v' ∧ Receiving g s ∧ ∀ k, (Server.deliver i g packets k).run v = k.run v' := by
  induction packets generalizing v with
  | nil =>
    exact ⟨v, v.session i, Handled.refl h.books i, receiving, fun _ => rfl⟩
  | cons cs packets ih =>
    simp only [List.all_cons, Bool.and_eq_true] at regular
    have hrecord : Handled cnt hand i ((v.session i).record (.recv g)) v (v.change i fun s => s.record (.recv g)) :=
      h.books.handled (g := fun s => s.record (.recv g)) rfl rfl (h.books.release i)
    have hpos : 0 < (v.session i).gen := receiving.gen.symm ▸ receiving.pos
    have hsound : Sound 0 ((v.session i).record (.recv g)) := receiving.sound.record (e := .recv g) nofun rfl rfl
      ⟨receiving.gen.symm, ((receiving.sound.up receiving.up).2 hpos).2⟩
    have hready := hrecord.ready h.elsewhere fun _ => hsound
    obtain ⟨mid, hmid, hcall⟩ := callback_calls cs regular.1 hand _ hready
    have htouched := hmid.touched i
    rw [hrecord.session] at htouched
    obtain ⟨v', s, hv', hs, hrun⟩ := ih (hready.called hmid) (receiving.received htouched.steady) regular.2
    refine ⟨v', s, (hrecord.trans (hmid.any i)).trans hv', hs, fun k => ?_⟩
    simp only [Server.deliver]
    rw [Prog.run_update, hcall, hrun]

theorem Ready.onRecv (h : Ready cnt hand v) (hf : Callback cnt f) {accepts : List Bool} (full : enough cnt accepts = true)
    {g : Nat} (receiving : Receiving g (v.session i)) (err bytes : Nat) {packets : List (List (ServerCall α))}
    (regular : packets.all (ServerCall.allRegular cnt) = true) (bad : Bool) :
    ∃ v' s, Handled cnt hand i s v v' ∧ Sound 0 s ∧
      ∀ k, (Server._on_recv i g err bytes packets bad none true accepts f k).run v = k.run v' := by
  let ended : SessionTCP α → SessionTCP α := fun s => { s with isReceiving := false }
  -- whatever ends the receive, the session is sound afterwards and may be torn down
  have clear : ∀ {w : Server α}, Ready cnt hand w → Receiving g (w.session i) →
      Handled cnt hand i (ended (w.session i)) w (w.change i ended) ∧ Sound 0 (ended (w.session i)) ∧
        Ready cnt hand (w.change i ended) := by
    intro w hw hr
    have hchange : Handled cnt hand i (ended (w.session i)) w (w.change i ended) :=
      hw.books.handled rfl rfl (hw.books.release i)
    exact ⟨hchange, hr.cleared, hchange.ready hw.elsewhere fun _ => hr.cleared⟩
  have tear : ∀ {w : Server α} (e : Nat), Ready cnt hand w → Receiving g (w.session i) → ∃ v' s, Handled cnt hand i s w v' ∧
      Sound 0 s ∧ ∀ k, (Server._disconnect i e true accepts f k).run (w.change i ended) = k.run v' := by
    intro w e hw hr
    obtain ⟨hchange, hsound, hready⟩ := clear hw hr
    have hgen : 0 < (ended (w.session i)).gen := hr.gen.symm ▸ hr.pos
    have hself := hchange.session
    obtain ⟨v', hv', hrun⟩ := hf.disconnectWith full hready (hself.symm ▸ hsound) (hself.symm ▸ hgen) e
    rw [hself] at hv'
    exact ⟨v', _, hchange.trans hv', (hsound.disconnectWith SessionTCP.gentle_id hgen e true).sound, hrun⟩
  unfold Server._on_recv
  by_cases hend : err ≠ 0 ∨ bytes = 0
  · obtain ⟨v', s, hv', hs, hrun⟩ := tear err h receiving
    refine ⟨v', s, hv', hs, fun k => ?_⟩
    rw [if_pos hend, Prog.run_update]
    exact hrun k
  · obtain ⟨mid, t, hmid, ht, hdeliver⟩ := h.deliver receiving regular
    have hready := hmid.ready h.elsewhere fun _ => ht.sound
    have hreceiving : Receiving g (mid.session i) := hmid.session.symm ▸ ht
    by_cases hbad : bad = true
    · obtain ⟨v', s, hv', hs, hrun⟩ := tear 16000 hready hreceiving
      refine ⟨v', s, hmid.trans hv', hs, fun k => ?_⟩
      rw [if_neg hend, hdeliver, if_pos hbad, Prog.run_update]
      exact hrun k
    · by_cases hoff : (!(mid.session i).isConnected) = true
      · obtain ⟨v', s, hv', hs, hrun⟩ := tear 0 hready hreceiving
        refine ⟨v', s, hmid.trans hv', hs, fun k => ?_⟩
        rw [if_neg hend, hdeliver, if_neg hbad, Prog.run_act, if_pos hoff]
        exact hrun k
      · obtain ⟨hchange, hsound, hready'⟩ := clear hready hreceiving
        obtain ⟨v', hv', hrun⟩ := hready'.recv (i := i) (f := f) true accepts
        rw [hchange.session] at hv'
        refine ⟨v', _, (hmid.trans hchange).trans hv', hsound.recv SessionTCP.gentle_id rfl none true, fun k => ?_⟩
        rw [if_neg hend, hdeliver, if_neg hbad, Prog.run_act, if_neg hoff]
        exact hrun k

theorem onSend_none {i err sov : Nat} {ok : Bool} {accepts : List Bool} {f resend : ServerProg α → ServerProg α}
    {k : ServerProg α}
    (hnone : (((v.change i fun s => { s with pool := s.pool.clear sov }).session i).unqueue sov).2 = none) :
    (Server._on_send i err sov ok accepts f resend k).run v =
      k.run ((v.change i fun s => { s with pool := s.pool.clear sov }).change i fun s => (s.unqueue sov).1) := by
  simp only [Server._on_send, Prog.run_update, Prog.run_lock, Prog.run_act, Prog.run_unlock, hnone]

theorem onSend_some {i err sov : Nat} {ok hasToSend : Bool} {accepts : List Bool} {f resend : ServerProg α → ServerProg α}
    {k : ServerProg α}
    (hsome : (((v.change i fun s => { s with pool := s.pool.clear sov }).session i).unqueue sov).2 = some hasToSend) :
    (Server._on_send i err sov ok accepts f resend k).run v =
      (Prog.test fun w : Server α =>
        if err ≠ 0 ∨ (w.session i).isConnected = false then Server._disconnect i err ok accepts f k
        else if hasToSend then resend k
        else k).run ((v.change i fun s => { s with pool := s.pool.clear sov }).change i fun s => (s.unqueue sov).1) := by
  simp only [Server._on_send, Prog.run_update, Prog.run_lock, Prog.run_act, Prog.run_unlock, hsome]

/-- `_on_send` of a completed send. -/
theorem Books.onSend (h : Books cnt hand v) (others : ∀ j, j ≠ i → (v.session j).isConnected = true → Sound 0 (v.session j))
    (hf : Callback cnt f) {accepts : List Bool} (full : enough cnt accepts = true) (sound : Sound 1 (v.session i))
    (err sov : Nat) {answers : List (Option Nat)} (pends : answers.all Option.isNone = true) (ok : Bool) :
    ∃ v' s, Handled cnt hand i s v v' ∧ Sound 0 s ∧
      ∀ k, (Server._on_send i err sov true accepts f (Server.send i none answers ok accepts f) k).run v = k.run v' := by
  let cleared : SessionTCP α → SessionTCP α := fun s => { s with pool := s.pool.clear sov }
  have hclear : Handled cnt hand i (cleared (v.session i)) v (v.change i cleared) := h.handled rfl rfl (h.release i)
  have hframe := (cleared (v.session i)).unqueue_frame sov
  have hback : Handled cnt hand i ((cleared (v.session i)).unqueue sov).1 v
      ((v.change i cleared).change i fun s => (s.unqueue sov).1) :=
    hclear.change (fun s => (s.unqueue sov).1) hframe.1 hframe.2.1 hframe.2.2.1
  have hsound : Sound 0 ((cleared (v.session i)).unqueue sov).1 := Sound.unqueued sound.frame sov
  have hgen : 0 < ((cleared (v.session i)).unqueue sov).1.gen := by
    rw [hframe.2.2.2]
    exact sound.sentOpened
  have hready := hback.ready others fun _ => hsound
  have hself := hback.session
  cases hhas : (((v.change i cleared).session i).unqueue sov).2 with
  | none => exact ⟨_, _, hback, hsound, fun k => onSend_none hhas⟩
  | some hasToSend =>
    have hrun : ∀ k, (Server._on_send i err sov true accepts f (Server.send i none answers ok accepts f) k).run v = _ :=
      fun k => onSend_some hhas
    by_cases hend : err ≠ 0 ∨
        (((v.change i cleared).change i fun s => (s.unqueue sov).1).session i).isConnected = false
    · obtain ⟨v', hv', hdisc⟩ := hf.disconnectWith full hready (hself.symm ▸ hsound) (hself.symm ▸ hgen) err
      rw [hself] at hv'
      refine ⟨v', _, hback.trans hv', (hsound.disconnectWith SessionTCP.gentle_id hgen err true).sound, fun k => ?_⟩
      rw [hrun, Prog.run_test, if_pos hend, hdisc]
    · cases hasToSend with
      | true =>
        obtain ⟨v', hv', hsend⟩ := hready.sendCall (f := f) i none pends ok accepts
        refine ⟨v', _, hback.trans (hv'.any i), ((hv'.touched i).steady (hself.symm ▸ hsound)).sound, fun k => ?_⟩
        rw [hrun, Prog.run_test, if_neg hend, if_pos rfl, hsend]
      | false =>
        refine ⟨_, _, hback, hsound, fun k => ?_⟩
        rw [hrun, Prog.run_test, if_neg hend, if_neg Bool.false_ne_true]

/-- Between steps: the books are in order, every session is sound, and no slot is idle while there is a session. -/
structure Settled (cnt : Nat) (v : Server α) : Prop where
  books : Books cnt 0 v
  sound : ∀ i, Sound 0 (v.session i)
  idle : Idle 0 v

theorem Settled.elsewhere (h : Settled cnt v) (j : Nat) (_ : j ≠ i) (_ : (v.session j).isConnected = true) :
    Sound 0 (v.session j) := h.sound j

theorem Settled.ready (h : Settled cnt v) : Ready cnt 0 v := ⟨h.books, fun i _ => h.sound i⟩

/-- What a step leaves behind, `hit` being the session whose handler ran. -/
structure Stepped (cnt : Nat) (hit : Option Nat) (v v' : Server α) : Prop where
  settled : Settled cnt v'
  others : ∀ j, hit ≠ some j → Touched (v.session j) (v'.session j)

/-- A handler of session `i` leaves the server settled. -/
theorem Settled.handled (h : Settled cnt v) {s : SessionTCP α} (handled : Handled cnt 0 i s v v') (sound : Sound 0 s) :
    Stepped cnt (some i) v v' := by
  refine ⟨⟨handled.books, fun j => ?_, handled.idle 0 h.idle⟩, fun j hj => handled.others j fun hji => hj (hji ▸ rfl)⟩
  by_cases hj : j = i
  · subst hj
    rw [handled.session]
    exact sound
  · exact ((handled.others j hj).steady (h.sound j)).sound

theorem Settled.called (h : Settled cnt v) (called : Called cnt 0 v v') : Stepped cnt none v v' :=
  ⟨⟨called.books, fun i => ((called.touched i).steady (h.sound i)).sound, called.idle 0 h.idle⟩, fun j _ => called.touched j⟩

theorem Settled.disc (h : Settled cnt v) (hf : Callback cnt f) {accepts : List Bool} (full : enough cnt accepts = true)
    (hpos : 0 < (v.session i).discs) : ∃ v', Stepped cnt (some i) v v' ∧
      (Server._on_disc i accepts f .done).run (v.change i fun s => { s with discs := s.discs - 1 }) = v' := by
  have sound := h.sound i
  have honce := sound.once
  have hgone : Handled cnt 0 i { v.session i with discs := (v.session i).discs - 1 } v
      (v.change i fun s => { s with discs := s.discs - 1 }) :=
    h.books.handled (g := fun s => { s with discs := s.discs - 1 }) rfl rfl (h.books.release i)
  have hdown : (v.session i).isDisconnecting = true := by
    by_contra hup
    have hz := (sound.up (Bool.eq_false_iff.mpr hup)).1
    omega
  have hoff : (v.session i).isConnected = false := (sound.down hdown).1
  have hself := hgone.session
  have hready := hgone.ready h.elsewhere fun _ => sound.discGone hpos
  obtain ⟨v', hv', hrun⟩ := hf.onDisc full hready (hself.symm ▸ hoff) (i := i) (by rw [hself]; dsimp only; omega)
  rw [hself] at hv'
  exact ⟨v', h.handled (hgone.trans hv') (sound.discDone SessionTCP.gentle_id hpos).sound, hrun .done⟩

theorem Settled.recv (h : Settled cnt v) (hf : Callback cnt f) {accepts : List Bool} (full : enough cnt accepts = true)
    {g : Nat} (hin : g ∈ (v.session i).recvs) (err bytes : Nat) {packets : List (List (ServerCall α))}
    (regular : packets.all (ServerCall.allRegular cnt) = true) (bad : Bool) : ∃ v', Stepped cnt (some i) v v' ∧
      (Server._on_recv i g err bytes packets bad none true accepts f .done).run
        (v.change i fun s => { s with recvs := s.recvs.erase g }) = v' := by
  have hreceiving := (h.sound i).recvDone hin
  have hgone : Handled cnt 0 i { v.session i with recvs := (v.session i).recvs.erase g } v
      (v.change i fun s => { s with recvs := s.recvs.erase g }) :=
    h.books.handled (g := fun s => { s with recvs := s.recvs.erase g }) rfl rfl (h.books.release i)
  have hself := hgone.session
  obtain ⟨v', s, hv', hs, hrun⟩ := (hgone.ready h.elsewhere fun _ => hreceiving.sound).onRecv hf full
    (hself.symm ▸ hreceiving) err bytes regular bad
  exact ⟨v', h.handled (hgone.trans hv') hs, hrun .done⟩

theorem Settled.send (h : Settled cnt v) (hf : Callback cnt f) {accepts : List Bool} (full : enough cnt accepts = true)
    {sov g : Nat} (hin : (sov, g) ∈ (v.session i).sends) (err : Nat) {answers : List (Option Nat)}
    (pends : answers.all Option.isNone = true) : ∃ v', Stepped cnt (some i) v v' ∧
      (Server._on_send i err sov true accepts f (Server.send i none answers true accepts f) .done).run
        (v.change i fun s => { s with sends := s.sends.erase (sov, g) }) = v' := by
  have hsound := (h.sound i).sendDone hin
  have hgone : Handled cnt 0 i { v.session i with sends := (v.session i).sends.erase (sov, g) } v
      (v.change i fun s => { s with sends := s.sends.erase (sov, g) }) :=
    h.books.handled (g := fun s => { s with sends := s.sends.erase (sov, g) }) rfl rfl (h.books.release i)
  have hself := hgone.session
  have others : ∀ j, j ≠ i → ((v.change i fun s => { s with sends := s.sends.erase (sov, g) }).session j).isConnected = true →
      Sound 0 ((v.change i fun s => { s with sends := s.sends.erase (sov, g) }).session j) := by
    intro j hj _
    rw [change_other hj]
    exact h.sound j
  obtain ⟨v', s, hv', hs, hrun⟩ := hgone.books.onSend others hf full (hself.symm ▸ hsound) err sov pends true
  exact ⟨v', h.handled (hgone.trans hv') hs, hrun .done⟩

theorem count_flying {aov : Nat} (hin : (aov, i) ∈ v.flying) (j : Nat) : (v.flying.map Prod.snd).count j =
    ((v.flying.erase (aov, i)).map Prod.snd).count j + if i = j then 1 else 0 := by
  rw [((List.perm_cons_erase hin).map Prod.snd).count_eq, List.map_cons, List.count_cons]
  simp only [beq_iff_eq]

/-- An `AcceptEx` that has failed gives its session back. -/
theorem Books.refused (h : Books cnt hand v) {aov : Nat} (hin : (aov, i) ∈ v.flying) :
    Books cnt (hand + 1) { v with flying := v.flying.erase (aov, i), spool := v.spool.push i } := by
  have hlen := List.length_erase_of_mem hin
  have hpos := List.length_pos_of_mem hin
  refine ⟨h.bound, h.running, ?_, ?_, fun j => ?_, h.pooled, h.server, h.release, h.connected, h.total, h.max⟩
  · have hslots := h.slots
    dsimp only
    omega
  · have hacc := h.accepting
    dsimp only
    omega
  · have hj := h.sessions j
    have hc := count_flying hin j
    change (i :: v.spool.free).count j + ((v.flying.erase (aov, i)).map Prod.snd).count j + v.accepted.count j =
      if j < v.spool.totalCnt then 1 else 0
    rw [List.count_cons]
    simp only [beq_iff_eq]
    omega

/-- An `AcceptEx` has succeeded, and its session leaves the pool. -/
def taken (aov i : Nat) (v : Server α) : Server α :=
  { v.change i fun s => { s with pooled := s.pooled - 1 } with
    flying := v.flying.erase (aov, i)
    connectedCnt := add32 v.connectedCnt 1
    accepted := i :: v.accepted }

/-- The session of an outstanding `AcceptEx` counts as one of the pool. -/
theorem Books.pooled_flying (h : Books cnt hand v) {aov : Nat} (hin : (aov, i) ∈ v.flying) : (v.session i).pooled = 1 := by
  have hi := h.sessions i
  have hp := h.pooled i
  have hc := count_flying hin i
  simp only [if_true] at hc
  split at hi <;> omega

theorem Books.taken (h : Books cnt hand v) {aov : Nat} (hin : (aov, i) ∈ v.flying) :
    Books cnt (hand + 1) (v.taken aov i) := by
  have hlen := List.length_erase_of_mem hin
  have hpos := List.length_pos_of_mem hin
  have hsessions : ∀ j, v.spool.free.count j + ((v.flying.erase (aov, i)).map Prod.snd).count j +
      (i :: v.accepted).count j = if j < v.spool.totalCnt then 1 else 0 := by
    intro j
    have hj := h.sessions j
    have hc := count_flying hin j
    rw [List.count_cons]
    simp only [beq_iff_eq]
    omega
  refine ⟨h.bound, h.running, ?_, ?_, hsessions, ?_, ?_, ?_, ?_, h.total, h.max⟩
  · have hslots := h.slots
    change v.apool.length + (v.flying.erase (aov, i)).length + (hand + 1) = cnt
    omega
  · have hacc := h.accepting
    change v.acceptingCnt = (v.flying.erase (aov, i)).length + (hand + 1)
    omega
  · refine change_all (P := fun j s => s.pooled + (i :: v.accepted).count j = 1)
      (f := fun s => { s with pooled := s.pooled - 1 }) ?_ fun j hji => ?_
    · have hone := h.pooled_flying hin
      have hi := h.pooled i
      rw [List.count_cons_self]
      dsimp only
      omega
    · rw [List.count_cons_of_ne (Ne.symm hji)]
      exact h.pooled j
  · exact change_all (P := fun _ s => s.isServer = true) (f := fun s => { s with pooled := s.pooled - 1 }) (h.server i) fun j _ => h.server j
  · exact change_all (P := fun _ s => s.isRelease = false) (f := fun s => { s with pooled := s.pooled - 1 }) (h.release i) fun j _ => h.release j
  · have hle : (i :: v.accepted).length ≤ v.spool.totalCnt := length_le_total fun j => by
      have hj := hsessions j
      omega
    have htotal := h.total
    rw [List.length_cons] at hle
    change add32 v.connectedCnt 1 = (i :: v.accepted).length
    rw [h.connected, add32_of_lt (by omega), List.length_cons]

/-- A failed accept. -/
theorem Settled.refused (h : Settled cnt v) {aov : Nat} (hin : (aov, i) ∈ v.flying) {onError : List (ServerCall α)}
    (regular : ServerCall.allRegular cnt onError = true) : ∃ v', Stepped cnt (some i) v v' ∧
      (Server.refused i onError (Server.acceptNext aov true .done)).run { v with flying := v.flying.erase (aov, i) } = v' := by
  let back : Server α := { v with flying := v.flying.erase (aov, i), spool := v.spool.push i }
  have hback : Books cnt 1 back := h.books.refused hin
  have hidle : Idle 1 back := by
    rcases h.idle with hnil | hle
    · exact Or.inl hnil
    · have hpush := v.spool.supply_push i
      refine Or.inr ?_
      change (v.spool.push i).supply ≤ 1
      omega
  obtain ⟨mid, hmid, hcall⟩ := callback_calls onError regular 1 back ⟨hback, fun j _ => h.sound j⟩
  obtain ⟨v', hv', hsession, hidle', hrun⟩ := hmid.books.acceptNext (hmid.idle 1 hidle) aov
  have htouched : ∀ j, Touched (v.session j) (v'.session j) := by
    intro j
    rw [hsession]
    exact hmid.touched j
  refine ⟨v', ⟨⟨hv', fun j => ((htouched j).steady (h.sound j)).sound, hidle'⟩, fun j _ => htouched j⟩, ?_⟩
  · have hrunning : back.isRelease = false := hback.running
    have hstart : (Server.refused i onError (Server.acceptNext aov true .done)).run
        { v with flying := v.flying.erase (aov, i) } =
        Prog.run (if back.isRelease then Server.acceptNext aov true .done
          else calls onError (Server.acceptNext aov true .done)) back := rfl
    rw [hstart, hrunning, if_neg Bool.false_ne_true, hcall, hrun]
    rfl

/-- The session that leaves the pool, and the others. -/
theorem Settled.taken (h : Settled cnt v) {aov : Nat} (hin : (aov, i) ∈ v.flying) :
    ((v.taken aov i).session i).Unpooled ∧ (∀ j, Sound 0 ((v.taken aov i).session j)) ∧
      ∀ j, j ≠ i → (v.taken aov i).session j = v.session j := by
  have sound := h.sound i
  have hpooled := h.books.pooled_flying hin
  have hpos : 0 < (v.session i).pooled := by omega
  obtain ⟨hrecvs, hsends, hdiscs, hzero⟩ := sound.inPool hpos
  have hself : (v.taken aov i).session i = { v.session i with pooled := (v.session i).pooled - 1 } :=
    change_self i (fun s => { s with pooled := s.pooled - 1 }) v
  refine ⟨?_, ?_, fun j hj => change_other hj (fun s => { s with pooled := s.pooled - 1 }) v⟩
  · rw [hself]
    exact ⟨(sound.poolOff hpos).1, hrecvs, hsends, hdiscs, hzero⟩
  · exact change_all (P := fun _ s => Sound 0 s) (f := fun s => { s with pooled := s.pooled - 1 }) (sound.leavePool hpos)
      fun j _ => h.sound j

/-- The end of `on_event` after `_on_accept` has left the session as `s`. -/
theorem Settled.accepting (h : Settled cnt v) {aov : Nat} (hin : (aov, i) ∈ v.flying) {s : SessionTCP α} {mid : Server α}
    (hmid : Handled cnt 1 i s (v.taken aov i) mid) (hs : Sound 0 s) : ∃ v', Stepped cnt (some i) v v' ∧ v'.session i = s ∧
      ∀ k, (Server.acceptNext aov true k).run mid = k.run v' := by
  obtain ⟨_, hsound, hother⟩ := h.taken hin
  obtain ⟨v', hv', hsession, hidle, hrun⟩ := hmid.books.acceptNext (hmid.idle 1 h.idle.mono) aov
  refine ⟨v', ⟨⟨hv', fun j => ?_, hidle⟩, fun j hj => ?_⟩, ?_, hrun⟩
  · rw [hsession]
    by_cases hji : j = i
    · subst hji
      rw [hmid.session]
      exact hs
    · exact ((hmid.others j hji).steady (hsound j)).sound
  · have hji : j ≠ i := fun hji => hj (hji ▸ rfl)
    rw [hsession, ← hother j hji]
    exact hmid.others j hji
  · rw [hsession]
    exact hmid.session

/-- A connection is accepted. -/
theorem Settled.accepted (h : Settled cnt v) {aov : Nat} (hin : (aov, i) ∈ v.flying) {o : ServerOpening α}
    (regular : ServerCall.allRegular cnt o.onConn = true) (pends : o.fail = none) : ∃ v', Stepped cnt (some i) v v' ∧
      (Server.on_accept_event aov i 0 true o [] true .done).run { v with flying := v.flying.erase (aov, i) } = v' := by
  obtain ⟨bare, hsound, _⟩ := h.taken hin
  have hready : Ready cnt 1 (v.taken aov i) := ⟨h.books.taken hin, fun j _ => hsound j⟩
  obtain ⟨mid, s, hmid, hs, hinit⟩ := hready.connInit (hsound i) bare.recvs bare.sends bare.discs bare.pooled regular pends
  obtain ⟨v', hv', _, hrun⟩ := h.accepting hin hmid hs
  refine ⟨v', hv', ?_⟩
  have hstart : (Server.on_accept_event aov i 0 true o [] true .done).run { v with flying := v.flying.erase (aov, i) } =
      (Server._on_conn_init i o (Server.acceptNext aov true .done)).run (v.taken aov i) := rfl
  rw [hstart, hinit, hrun]
  rfl

end Server

/-- In the whole step only `disconnect(false)` is called, and the calls of Winsock succeed or pend. -/
def ServerEvent.regular (cnt : Nat) : ServerEvent α → Bool
  | .call c => c.regular cnt
  | .accept _ _ _ updated o onError pends =>
    updated && ServerCall.allRegular cnt o.onConn && o.fail.isNone && ServerCall.allRegular cnt onError && pends
  | .disc _ onDisc accepts => ServerCall.allRegular cnt onDisc && Server.enough cnt accepts
  | .recv _ _ _ _ packets _ fail ok onDisc accepts =>
    packets.all (ServerCall.allRegular cnt) && fail.isNone && ok && ServerCall.allRegular cnt onDisc &&
      Server.enough cnt accepts
  | .send _ _ _ _ answers ok onDisc accepts =>
    answers.all Option.isNone && ok && ServerCall.allRegular cnt onDisc && Server.enough cnt accepts

/-- The session whose handler runs. -/
def ServerEvent.session : ServerEvent α → Option Nat
  | .call _ => none
  | .accept _ i _ _ _ _ _ => some i
  | .disc i _ _ => some i
  | .recv i _ _ _ _ _ _ _ _ _ => some i
  | .send i _ _ _ _ _ _ _ => some i

namespace Server

variable {cnt : Nat} {v v' : Server α}

/-- A handler runs from its completion to its end. -/
def handle (v : Server α) (e : ServerEvent α) : Option (Server α) :=
  if v.crashed then none else (v.dequeue e).map (handler e).run

/-- `listen` has returned. -/
def listening (acceptCnt preCnt incCnt maxCnt initCnt stepCnt arrCnt : Nat) (accepts : List Bool) : Server α :=
  (accept_all accepts .done).run (init acceptCnt preCnt incCnt maxCnt initCnt stepCnt arrCnt)

/-- Slots and sessions are conserved, and the counters count them. -/
structure Conserved (acceptCnt : Nat) (v : Server α) : Prop where
  slots : v.acceptingCnt + v.apool.length = acceptCnt
  accepting : v.acceptingCnt = v.flying.length
  sessions : ∀ i, v.spool.free.count i + (v.flying.map Prod.snd).count i + v.accepted.count i =
    if i < v.spool.totalCnt then 1 else 0
  connected : v.connectedCnt = v.accepted.length
  free : ∀ i ∈ v.spool.free, (v.session i).recvs = [] ∧ (v.session i).sends = [] ∧ (v.session i).discs = 0 ∧
    (v.session i).isConnected = false
  exhausted : v.apool ≠ [] → v.spool.free = [] ∧ (v.spool.maxCnt ≤ v.spool.totalCnt ∨ v.spool.incCnt = 0)

theorem settled_listening {preCnt incCnt maxCnt initCnt stepCnt arrCnt : Nat} (hcnt : cnt < 4294967296)
    (hpre : preCnt < 4294967296) (hmax : maxCnt < 4294967296) {accepts : List Bool} (full : enough cnt accepts = true) :
    Settled cnt (listening (α := α) cnt preCnt incCnt maxCnt initCnt stepCnt arrCnt accepts) := by
  have hinit : Books cnt 0 (init (α := α) cnt preCnt incCnt maxCnt initCnt stepCnt arrCnt) := by
    refine ⟨hcnt, rfl, ?_, rfl, fun i => ?_, fun i => rfl, fun i => rfl, fun i => rfl, rfl, ?_, hmax⟩
    · simp [init]
    · change ((List.range' 0 preCnt).reverse ++ []).count i + 0 + 0 = if i < 0 + preCnt then 1 else 0
      rw [List.append_nil, List.count_reverse, Nat.zero_add]
      by_cases hi : i < preCnt
      · rw [if_pos hi]
        exact List.count_eq_one_of_mem List.nodup_range' (List.mem_range'_1.mpr ⟨Nat.zero_le i, by omega⟩)
      · rw [if_neg hi]
        refine List.count_eq_zero.mpr fun hin => hi ?_
        have hlt := (List.mem_range'_1.mp hin).2
        omega
    · change 0 + preCnt < 4294967296
      omega
  obtain ⟨v', hv', hsession, hidle, hrun⟩ := hinit.acceptAll full
  have heq : listening cnt preCnt incCnt maxCnt initCnt stepCnt arrCnt accepts = v' := hrun .done
  rw [heq]
  refine ⟨hv', fun i => ?_, hidle⟩
  rw [hsession]
  exact SessionTCP.sound_start true initCnt stepCnt arrCnt

theorem Settled.step (h : Settled cnt v) {e : ServerEvent α} (regular : e.regular cnt = true) (hs : v.handle e = some v') :
    Stepped cnt e.session v v' := by
  unfold handle at hs
  split at hs
  next => cases hs
  next =>
    obtain ⟨w, hw, hrun⟩ := Option.map_eq_some_iff.mp hs
    cases e with
    | call c =>
      cases Option.some.inj hw
      obtain ⟨u, hu, hcall⟩ := callback_call c regular 0 v h.ready
      have heq : u = v' := (hcall .done).symm.trans hrun
      rw [← heq]
      exact h.called hu
    | accept aov i err updated o onError pends =>
      simp only [dequeue] at hw
      split at hw
      next hflying =>
        cases Option.some.inj hw
        have hin : (aov, i) ∈ v.flying := List.contains_iff_mem.mp hflying
        simp only [ServerEvent.regular, Bool.and_eq_true, Option.isNone_iff_eq_none] at regular
        obtain ⟨⟨⟨⟨hupdated, honConn⟩, hfail⟩, honError⟩, hpends⟩ := regular
        subst hupdated hpends
        by_cases herr : err ≠ 0
        · obtain ⟨u, hu, href⟩ := h.refused hin honError
          have hprog : handler (.accept aov i err true o onError true) =
              Server.refused i onError (Server.acceptNext aov true .done) := if_pos herr
          rw [hprog, href] at hrun
          rw [← hrun]
          exact hu
        · obtain ⟨u, hu, hacc⟩ := h.accepted hin honConn hfail
          have hprog : handler (.accept aov i err true o onError true) = on_accept_event aov i 0 true o [] true .done := if_neg herr
          rw [hprog, hacc] at hrun
          rw [← hrun]
          exact hu
      next => cases hw
    | disc i onDisc accepts =>
      simp only [dequeue] at hw
      split at hw
      next hpos =>
        cases Option.some.inj hw
        simp only [ServerEvent.regular, Bool.and_eq_true] at regular
        obtain ⟨u, hu, hdisc⟩ := h.disc (callback_calls onDisc regular.1) regular.2 hpos
        have heq : u = v' := hdisc.symm.trans hrun
        rw [← heq]
        exact hu
      next => cases hw
    | recv i g err bytes packets bad fail ok onDisc accepts =>
      simp only [dequeue] at hw
      split at hw
      next hin =>
        cases Option.some.inj hw
        simp only [ServerEvent.regular, Bool.and_eq_true, Option.isNone_iff_eq_none] at regular
        obtain ⟨⟨⟨⟨hpackets, hfail⟩, hok⟩, honDisc⟩, hfull⟩ := regular
        subst hfail hok
        obtain ⟨u, hu, hrecv⟩ := h.recv (callback_calls onDisc honDisc) hfull hin err bytes hpackets bad
        have heq : u = v' := hrecv.symm.trans hrun
        rw [← heq]
        exact hu
      next => cases hw
    | send i sov g err answers ok onDisc accepts =>
      simp only [dequeue] at hw
      split at hw
      next hsends =>
        cases Option.some.inj hw
        have hin : (sov, g) ∈ (v.session i).sends := List.contains_iff_mem.mp hsends
        simp only [ServerEvent.regular, Bool.and_eq_true] at regular
        obtain ⟨⟨⟨hanswers, hok⟩, honDisc⟩, hfull⟩ := regular
        subst hok
        obtain ⟨u, hu, hsend⟩ := h.send (callback_calls onDisc honDisc) hfull hin err hanswers
        have heq : u = v' := hsend.symm.trans hrun
        rw [← heq]
        exact hu
      next => cases hw

theorem Settled.conserved (h : Settled cnt v) : Conserved cnt v := by
  have b := h.books
  refine ⟨?_, b.accepting, b.sessions, b.connected, fun i hin => ?_, fun hne => ?_⟩
  · have hslots := b.slots
    have hacc := b.accepting
    omega
  · have hone : 0 < v.spool.free.count i := List.count_pos_iff.mpr hin
    have hi := b.sessions i
    have hpooled := b.pooled i
    have hpos : 0 < (v.session i).pooled := by
      split at hi <;> omega
    obtain ⟨hrecvs, hsends, hdiscs, _⟩ := (h.sound i).inPool hpos
    exact ⟨hrecvs, hsends, hdiscs, ((h.sound i).poolOff hpos).1⟩
  · have hle : v.spool.supply ≤ 0 := h.idle.resolve_left hne
    have hnone : v.spool.pop.1 = none := SessionPool.pop_eq_none.mpr (Nat.le_zero.mp hle)
    rcases v.spool.pop_cases with ⟨s, free, _, hpop⟩ | ⟨hfree, hmax, _⟩ | ⟨_, _, _, _, _, s, free, _, hpop⟩
    · rw [hpop] at hnone
      cases hnone
    · exact ⟨hfree, hmax⟩
    · rw [hpop] at hnone
      cases hnone

/-- Three slots and two sessions: an accept fails, a connection is closed by the `on_conn` of another, and its session
goes to the next accept. -/
def served : List (ServerEvent Nat) :=
  [.accept 2 0 995 true ⟨[], none, true, [], []⟩ [] true,
    .accept 2 0 0 true ⟨[.send 0 (some 7) [] true [] [true, true, true]], none, true, [], []⟩ [] true,
    .send 0 3 1 0 [] true [] [true, true, true],
    .accept 1 1 0 true ⟨[.disconnect 0 false [.send 1 none [] true [] [true, true, true]] [true, true, true]], none, true, [], []⟩
      [] true,
    .recv 0 1 995 0 [] false none true [.disconnect 1 false [] [true, true, true]] [true, true, true]]

end Server

end Ven
