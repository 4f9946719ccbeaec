import Ven.LifeHandlers

namespace Ven

variable {α : Type}

namespace SessionTCP

variable {s s' : SessionTCP α} {n : Nat} {f : SessionTCP α → SessionTCP α}

/-- `ConnectEx` completes only when nothing of an earlier connection is outstanding. -/
def Settled (s : SessionTCP α) : LifeOp α → Prop
  | .conn err _ => err = 0 → s.recvs = [] ∧ s.sends = [] ∧ s.discs = 0
  | _ => True

instance (s : SessionTCP α) : (op : LifeOp α) → Decidable (s.Settled op)
  | .conn err _ => inferInstanceAs (Decidable (err = 0 → s.recvs = [] ∧ s.sends = [] ∧ s.discs = 0))
  | .connect _ => isTrue trivial
  | .call _ => isTrue trivial
  | .accept _ _ => isTrue trivial
  | .disc _ => isTrue trivial
  | .recv _ _ _ _ _ _ _ _ => isTrue trivial
  | .send _ _ _ _ _ _ => isTrue trivial

/-- The state in which `_on_conn_init` calls `on_conn`. -/
def opened (s : SessionTCP α) : SessionTCP α :=
  let s := { s with
    isConnected := true
    isReceiving := false
    isConnecting := false
    isForceDisconnecting := false
    isDisconnecting := false }
  let s :=
    match SBuf.init 0 s.pool with
    | none => s.crash
    | some (sbuf, pool) => { s with sbuf := sbuf, pool := pool }
  SessionTCP.record { s with rbuf := true } .conn

/-- What `_on_conn_init` has done when it calls `on_conn`. -/
structure Opens (s t : SessionTCP α) : Prop where
  isServer : t.isServer = s.isServer
  isRelease : t.isRelease = s.isRelease
  isConnected : t.isConnected = true
  isReceiving : t.isReceiving = false
  isConnecting : t.isConnecting = false
  isDisconnecting : t.isDisconnecting = false
  conns : t.conns = s.conns
  pooled : t.pooled = s.pooled
  deleted : t.deleted = s.deleted
  trace : t.trace = s.trace ++ [.conn]

theorem opened_spec (s : SessionTCP α) : Opens s s.opened := by
  unfold opened
  dsimp only
  split
  next => exact ⟨rfl, rfl, rfl, rfl, rfl, rfl, rfl, rfl, rfl, rfl⟩
  next => exact ⟨rfl, rfl, rfl, rfl, rfl, rfl, rfl, rfl, rfl, rfl⟩

theorem onConnInit_eq (s : SessionTCP α) (o : Opening α) :
    s._on_conn_init o = (s.opened.calls o.onConn).recv o.fail o.ok fun s => s.calls o.onDisc := rfl

/-- A session that has nothing outstanding is opened. -/
theorem Sound.openedUp (h : Sound 0 s) (hrecvs : s.recvs = []) (hsends : s.sends = []) (hdiscs : s.discs = 0)
    (hpooled : s.pooled = 0) : Sound 0 s.opened := by
  have up : ∀ (sbuf : SBuf) (pool : SOVPool α) (crashed : Bool), sbuf.popCnt = 0 → Sound 0 (SessionTCP.record { s with
      isConnected := true
      isReceiving := false
      isConnecting := false
      isForceDisconnecting := false
      isDisconnecting := false
      sbuf := sbuf
      pool := pool
      crashed := crashed
      rbuf := true } .conn) := by
    intro sbuf pool crashed hcnt
    have hsince : Event.since (s.trace ++ [.conn]) = [] := Event.since_conn s.trace
    have hquiet : (Event.since (s.trace ++ [.conn])).countP Event.isDisc = 0 := by rw [hsince]; rfl
    have hargs : (Event.since (s.trace ++ [.conn])).filterMap Event.argument = [] := by rw [hsince]; rfl
    refine ⟨h.orderly.concat trivial, ?_, fun hpos => ?_, fun hz => ?_, fun hne => absurd hrecvs hne,
      fun _ => ⟨hdiscs, fun _ => ⟨hpooled, hquiet⟩⟩, nofun, fun hpos => ?_, h.once, h.side, fun _ => hargs, nofun⟩
    · change sbuf.popCnt = s.sends.length + 0
      rw [hcnt, hsends]
      rfl
    · change 0 < s.sends.length + 0 at hpos
      rw [hsends] at hpos
      exact absurd hpos (lt_irrefl 0)
    · change (s.trace ++ [Event.conn]).count Event.conn = 0 at hz
      simp at hz
    · change 0 < s.discs at hpos
      omega
  unfold SessionTCP.opened
  dsimp only
  split
  next =>
    refine up s.sbuf s.pool true ?_
    have hcnt := h.popCnt
    rw [hsends] at hcnt
    exact hcnt
  next sbuf pool hinit =>
    refine up sbuf pool s.crashed ?_
    obtain ⟨⟨sov, p⟩, _, heq⟩ := Option.map_eq_some_iff.mp hinit
    cases heq
    rfl

/-- `_on_conn_init` of a session that has nothing outstanding. -/
theorem Sound.connInit (h : Sound 0 s) (hrecvs : s.recvs = []) (hsends : s.sends = []) (hdiscs : s.discs = 0)
    (hpooled : s.pooled = 0) (o : Opening α) : Sound 0 (s._on_conn_init o) := by
  have hc := (h.openedUp hrecvs hsends hdiscs hpooled).calls o.onConn
  rw [onConnInit_eq]
  exact hc.sound.recv (calls_off o.onDisc) (hc.receiving.trans s.opened_spec.isReceiving) o.fail o.ok

/-- Inside the loop of `_on_recv` of connection `g`. -/
structure Receiving (g : Nat) (s : SessionTCP α) : Prop where
  sound : Sound 0 s
  recvs : s.recvs = []
  receiving : s.isReceiving = true
  up : s.isDisconnecting = false
  gen : s.gen = g
  pos : 0 < g

/-- `on_recv` has returned. -/
theorem Receiving.received {g : Nat} (h : Receiving g s) {t : SessionTCP α}
    (steady : Sound 0 (s.record (.recv g)) → Steady (s.record (.recv g)) t) : Receiving g t := by
  have hpos : 0 < s.gen := h.gen.symm ▸ h.pos
  have hrec : Sound 0 (s.record (.recv g)) :=
    h.sound.record (e := .recv g) nofun rfl rfl ⟨h.gen.symm, ((h.sound.up h.up).2 hpos).2⟩
  have hgen : (s.record (.recv g)).gen = s.gen := gen_record (e := .recv g) nofun s
  have hc := steady hrec
  exact ⟨hc.sound, hc.recvs.trans h.recvs, hc.receiving.trans h.receiving, (hc.busy h.receiving).trans h.up,
    (hc.gen.trans hgen).trans h.gen, h.pos⟩

/-- Nothing is torn down while packets are delivered. -/
theorem Receiving.deliver {g : Nat} (h : Receiving g s) (packets : List (List (Call α))) :
    Receiving g (deliver g packets s) := by
  induction packets generalizing s with
  | nil => exact h
  | cons cs packets ih =>
    simp only [SessionTCP.deliver]
    exact ih (h.received fun hrec => hrec.calls cs)

theorem Receiving.cleared {g : Nat} (h : Receiving g s) : Sound 0 { s with isReceiving := false } := h.sound.cleared h.recvs

theorem Receiving.onRecv {g : Nat} (h : Receiving g s) (gentle : Gentle f) (err bytes : Nat)
    (packets : List (List (Call α))) (bad : Bool) (fail : Option Nat) (ok : Bool) :
    Sound 0 (s._on_recv g err bytes packets bad fail ok f) := by
  have hpos : 0 < s.gen := h.gen.symm ▸ h.pos
  unfold _on_recv
  split
  next => exact (h.cleared.disconnectWith gentle hpos err ok).sound
  next =>
    have hd := h.deliver packets
    have hpos : 0 < (SessionTCP.deliver g packets s).gen := hd.gen.symm ▸ h.pos
    dsimp only
    split
    next => exact (hd.cleared.disconnectWith gentle hpos 16000 ok).sound
    next =>
      split
      next => exact (hd.cleared.disconnectWith gentle hpos 0 ok).sound
      next => exact hd.cleared.recv gentle rfl fail ok

/-- `ConnectEx`s come and go. -/
theorem Sound.connecting (h : Sound 0 s) (isConnecting : Bool) (conns : Nat)
    (hside : s.isServer = true ∧ conns = 0 ∨ s.isServer = false ∧ s.pooled = 0) :
    Sound 0 { s with isConnecting := isConnecting, conns := conns } :=
  ⟨h.orderly, h.popCnt, h.usable, h.fresh, h.receiving, h.up, h.down, h.pending, h.once, hside, h.connected, h.argument⟩

theorem Sound.connect (h : Sound 0 s) (fail : Option Nat) : Sound 0 (s.connect fail).1 := by
  unfold SessionTCP.connect
  split
  next => exact h
  next hclient =>
    have hclient : s.isServer = false := by
      simpa using hclient
    have hpooled : s.pooled = 0 := by
      rcases h.side with hs | hs
      · rw [hclient] at hs
        cases hs.1
      · exact hs.2
    split
    next => exact h
    next =>
      split
      next => exact h
      next =>
        cases fail with
        | none => exact h.connecting true (s.conns + 1) (Or.inr ⟨hclient, hpooled⟩)
        | some err => exact h.connecting true s.conns (Or.inr ⟨hclient, hpooled⟩)

/-- A session that is in the pool is not connected, nor is anything of a connection outstanding. -/
theorem Sound.poolOff (h : Sound 0 s) (hpos : 0 < s.pooled) :
    s.isConnected = false ∧ s.recvs = [] ∧ s.sends.length + 0 = 0 := by
  cases hd : s.isDisconnecting with
  | true => exact h.down hd
  | false =>
    have hgen : s.gen = 0 := by
      by_contra hne
      have hz := ((h.up hd).2 (Nat.pos_of_ne_zero hne)).1
      omega
    exact h.fresh hgen

/-- A session that is in the pool has nothing outstanding. -/
theorem Sound.inPool (h : Sound 0 s) (hpos : 0 < s.pooled) :
    s.recvs = [] ∧ s.sends = [] ∧ s.discs = 0 ∧ s.pooled - 1 = 0 := by
  have honce := h.once
  obtain ⟨_, hrecvs, hsends⟩ := h.poolOff hpos
  exact ⟨hrecvs, List.eq_nil_of_length_eq_zero hsends, by omega, by omega⟩

theorem Sound.leavePool (h : Sound 0 s) (hpos : 0 < s.pooled) : Sound 0 { s with pooled := s.pooled - 1 } := by
  obtain ⟨_, _, hdiscs, hpooled⟩ := h.inPool hpos
  refine ⟨h.orderly, h.popCnt, h.usable, h.fresh, h.receiving, fun hup => ?_, h.down, h.pending, ?_, ?_, h.connected,
    h.argument⟩
  · exact ⟨hdiscs, fun hg => ⟨hpooled, ((h.up hup).2 hg).2⟩⟩
  · change s.pooled - 1 + s.discs ≤ 1
    omega
  · exact h.side.imp_right fun hc => ⟨hc.1, hpooled⟩

theorem Sound.accept (h : Sound 0 s) (hpos : 0 < s.pooled) (updated : Bool) (o : Opening α) :
    Sound 0 ({ s with pooled := s.pooled - 1 }._on_accept updated o) := by
  obtain ⟨hrecvs, hsends, hdiscs, hpooled⟩ := h.inPool hpos
  have ht := h.leavePool hpos
  unfold _on_accept
  split
  next => exact (ht.disconnect (calls_off o.onDisc) false).sound
  next => exact ht.connInit hrecvs hsends hdiscs hpooled o

theorem Sound.connDone (h : Sound 0 s) (hpos : 0 < s.conns) (err : Nat) (o : Opening α)
    (settled : err = 0 → s.recvs = [] ∧ s.sends = [] ∧ s.discs = 0) :
    Sound 0 ({ s with conns := s.conns - 1 }._on_conn err o) := by
  have hside : s.isServer = false ∧ s.pooled = 0 := by
    rcases h.side with hc | hc
    · omega
    · exact hc
  have ht := h.connecting false (s.conns - 1) (Or.inr hside)
  unfold _on_conn
  dsimp only
  split
  next =>
    have hr : Sound 0 (SessionTCP.record { s with isConnecting := false, conns := s.conns - 1 } (.refused err)) :=
      ht.record (e := .refused err) nofun rfl rfl trivial
    exact (hr.calls o.onDisc).sound
  next herr =>
    obtain ⟨hrecvs, hsends, hdiscs⟩ := settled (by omega)
    exact ht.connInit hrecvs hsends hdiscs hside.2 o

theorem Sound.discGone (h : Sound 0 s) (hpos : 0 < s.discs) : Sound 0 { s with discs := s.discs - 1 } := by
  have honce := h.once
  obtain ⟨hgen, hquiet⟩ := h.pending hpos
  refine ⟨h.orderly, h.popCnt, h.usable, h.fresh, h.receiving, fun hup => ?_, h.down, fun _ => ⟨hgen, hquiet⟩, ?_, h.side,
    h.connected, h.argument⟩
  · have hz := (h.up hup).1
    omega
  · change s.pooled + (s.discs - 1) ≤ 1
    omega

/-- `DisconnectEx` completes. -/
theorem Sound.discDone (h : Sound 0 s) (gentle : Gentle f) (hpos : 0 < s.discs) :
    Steady { s with discs := s.discs - 1 } ({ s with discs := s.discs - 1 }._on_disc f) := by
  have honce := h.once
  obtain ⟨hgen, hquiet⟩ := h.pending hpos
  have hdown : s.isDisconnecting = true := by
    cases hd : s.isDisconnecting with
    | true => rfl
    | false =>
      have hz := (h.up hd).1
      omega
  have hdiscs : s.discs - 1 = 0 := by omega
  have hpooled : s.pooled = 0 := by omega
  exact (h.discGone hpos).onDisc gentle hgen hdown hdiscs hpooled hquiet

theorem Sound.recvDone (h : Sound 0 s) {g : Nat} (hin : g ∈ s.recvs) :
    Receiving g { s with recvs := s.recvs.erase g } := by
  have hne : s.recvs ≠ [] := List.ne_nil_of_mem hin
  obtain ⟨hrecvs, hreceiving⟩ := h.receiving hne
  have hg : s.gen = g := by
    rw [hrecvs] at hin
    exact (List.mem_singleton.mp hin).symm
  have hnone : s.recvs.erase g = [] := by
    rw [hrecvs, hg]
    exact List.erase_cons_head g []
  have hup : s.isDisconnecting = false := by
    cases hd : s.isDisconnecting with
    | false => rfl
    | true => exact absurd (h.down hd).2.1 hne
  have hpos : 0 < s.gen := by
    by_contra hz
    exact hne (h.fresh (by omega)).2.1
  refine ⟨?_, hnone, hreceiving, hup, hg, hg ▸ hpos⟩
  exact ⟨h.orderly, h.popCnt, h.usable, fun hz => ⟨(h.fresh hz).1, hnone, (h.fresh hz).2.2⟩, fun hr => absurd hnone hr,
    h.up, fun hd => ⟨(h.down hd).1, hnone, (h.down hd).2.2⟩, h.pending, h.once, h.side, h.connected, h.argument⟩

theorem Sound.sendDone (h : Sound 0 s) {sov g : Nat} (hin : (sov, g) ∈ s.sends) :
    Sound 1 { s with sends := s.sends.erase (sov, g) } := by
  have hlen : s.sends.length = (s.sends.erase (sov, g)).length + 1 := by
    have hpos := List.length_pos_of_mem hin
    rw [List.length_erase_of_mem hin]
    omega
  refine ⟨h.orderly, ?_, fun _ => ?_, fun hz => ?_, h.receiving, h.up, fun hd => ?_, h.pending, h.once, h.side,
    h.connected, h.argument⟩
  · change s.sbuf.popCnt = (s.sends.erase (sov, g)).length + 1
    rw [h.popCnt]
    exact hlen
  · exact h.usable (by omega)
  · have hf := (h.fresh hz).2.2
    omega
  · have hf := (h.down hd).2.2
    omega

theorem Sound.handle (h : Sound 0 s) {op : LifeOp α} (settled : s.Settled op) (hs : s.handle op = some s') :
    Sound 0 s' := by
  cases op with
  | connect fail =>
    cases Option.some.inj hs
    exact h.connect fail
  | call c =>
    cases Option.some.inj hs
    exact (h.call c).sound
  | accept updated o =>
    simp only [SessionTCP.handle] at hs
    split at hs
    next hpos =>
      cases Option.some.inj hs
      exact h.accept hpos updated o
    next => cases hs
  | conn err o =>
    simp only [SessionTCP.handle] at hs
    split at hs
    next hpos =>
      cases Option.some.inj hs
      exact h.connDone hpos err o settled
    next => cases hs
  | disc onDisc =>
    simp only [SessionTCP.handle] at hs
    split at hs
    next hpos =>
      cases Option.some.inj hs
      exact (h.discDone (calls_off onDisc) hpos).sound
    next => cases hs
  | recv g err bytes packets bad fail ok onDisc =>
    simp only [SessionTCP.handle] at hs
    split at hs
    next hin =>
      cases Option.some.inj hs
      exact (h.recvDone hin).onRecv (calls_off onDisc) err bytes packets bad fail ok
    next => cases hs
  | send sov g err answers ok onDisc =>
    simp only [SessionTCP.handle] at hs
    split at hs
    next hin =>
      cases Option.some.inj hs
      have hd := (h.sendDone hin).onSend (calls_off onDisc) err sov ok fun s' h' =>
        h'.send (calls_off onDisc) none answers ok
      exact hd.sound
    next => cases hs

theorem Sound.step (h : Sound 0 s) {op : LifeOp α} (settled : s.Settled op) (hs : s.step op = some s') :
    Sound 0 s' := by
  unfold SessionTCP.step at hs
  split at hs
  next => cases hs
  next => exact h.handle settled hs

theorem sound_start (isServer : Bool) (initCnt stepCnt arrCnt : Nat) :
    Sound 0 (start isServer initCnt stepCnt arrCnt : SessionTCP α) := by
  refine ⟨Event.orderly_nil, rfl, nofun, fun _ => ⟨rfl, rfl, rfl⟩, fun hne => absurd rfl hne,
    fun _ => ⟨rfl, fun hpos => absurd hpos (lt_irrefl 0)⟩, nofun, fun hpos => absurd hpos (lt_irrefl 0), ?_, ?_, nofun,
    fun hpos => absurd hpos (lt_irrefl 0)⟩
  · cases isServer with
    | true => exact le_refl 1
    | false => exact Nat.zero_le 1
  · cases isServer with
    | true => exact Or.inl ⟨rfl, rfl⟩
    | false => exact Or.inr ⟨rfl, rfl⟩

end SessionTCP

end Ven
