import Ven.LifeFrame

namespace Ven

variable {α : Type}

/-- A call of `disconnect` with such an argument. -/
def Call.asks (p : Bool → Bool) : Call α → Bool
  | .send _ _ _ _ => false
  | .disconnect isRelease _ => p isRelease

def Call.onDisc : Call α → List (Call α)
  | .send _ _ _ onDisc => onDisc
  | .disconnect _ onDisc => onDisc

namespace SessionTCP

/-- `_on_disc` raised `on_disc` on the way from one state to the other. -/
def raisedBetween (s s' : SessionTCP α) : Bool := decide (s.trace.countP Event.isDisc < s'.trace.countP Event.isDisc)

/-- The call is such a `disconnect`, or its `on_disc` makes one. -/
def asksIn (p : Bool → Bool) (s : SessionTCP α) (c : Call α) : Bool :=
  c.asks p || (s.raisedBetween (s.call c) && c.onDisc.any (Call.asks p))

def asksInAll (p : Bool → Bool) (s : SessionTCP α) : List (Call α) → Bool
  | [] => false
  | c :: cs => s.asksIn p c || asksInAll p (s.call c) cs

def asksInPackets (p : Bool → Bool) (g : Nat) (s : SessionTCP α) : List (List (Call α)) → Bool
  | [] => false
  | cs :: packets => asksInAll p (s.record (.recv g)) cs || asksInPackets p g ((s.record (.recv g)).calls cs) packets

/-- The calls of `on_conn`, and those of an `on_disc` raised in the `recv` after it. -/
def asksInOpening (p : Bool → Bool) (s : SessionTCP α) (o : Opening α) : Bool :=
  let t := s.opened.calls o.onConn
  asksInAll p s.opened o.onConn ||
    (t.raisedBetween (t.recv o.fail o.ok fun s => s.calls o.onDisc) && o.onDisc.any (Call.asks p))

/-- A user calls such a `disconnect` in the step. -/
def asked (p : Bool → Bool) (s : SessionTCP α) (op : LifeOp α) : Bool :=
  match op with
  | .connect _ => false
  | .call c => s.asksIn p c
  | .accept updated o => updated && { s with pooled := s.pooled - 1 }.asksInOpening p o
  | .conn err o =>
    if err ≠ 0 then o.onDisc.any (Call.asks p)
    else { s with conns := s.conns - 1, isConnecting := false }.asksInOpening p o
  | .disc onDisc => onDisc.any (Call.asks p)
  | .recv g err bytes packets _ _ _ onDisc =>
    let t := { s with recvs := s.recvs.erase g }
    let t' := if err ≠ 0 ∨ bytes = 0 then t else deliver g packets t
    (!(decide (err ≠ 0 ∨ bytes = 0)) && asksInPackets p g t packets) ||
      (((s.handle op).any fun s' => t'.raisedBetween s') && onDisc.any (Call.asks p))
  | .send _ _ _ _ _ onDisc => ((s.handle op).any fun s' => s.raisedBetween s') && onDisc.any (Call.asks p)

/-- A client session, which is in no pool. -/
def Client (s : SessionTCP α) : Prop := s.isServer = false ∧ s.pooled = 0

/-- No `ConnectEx` was issued or completed, and no connection came up. -/
structure Still (s s' : SessionTCP α) : Prop where
  conns : s'.conns = s.conns
  gen : s'.gen = s.gen
  off : s.isConnected = false → s'.isConnected = false
  client : s.Client → s'.Client

variable {s s' : SessionTCP α}

theorem still_frame : Frame (fun _ => true) (@Still α) where
  refl s := ⟨rfl, rfl, fun hoff => hoff, fun hc => hc⟩
  trans s t u h h' := ⟨h'.conns.trans h.conns, h'.gen.trans h.gen, fun hoff => h'.off (h.off hoff),
    fun hc => h'.client (h.client hc)⟩
  record s e he := ⟨rfl, gen_record he s, fun hoff => hoff, fun hc => hc⟩
  off s dovErr := ⟨rfl, rfl, fun _ => rfl, fun hc => hc⟩
  fields s _ _ _ _ _ _ _ _ _ _ := ⟨rfl, rfl, fun hoff => hoff, fun hc => hc⟩
  release s r _ := ⟨rfl, rfl, fun hoff => hoff, fun hc => hc⟩
  delete s _ := ⟨rfl, rfl, fun hoff => hoff, fun hc => hc⟩
  giveBack s hserver _ := by
    refine ⟨rfl, rfl, fun hoff => hoff, fun hc => ?_⟩
    rw [hc.1] at hserver
    cases hserver

theorem connect_off (s : SessionTCP α) (fail : Option Nat) :
    (s.connect fail).1.gen = s.gen ∧ (s.connect fail).1.isConnected = s.isConnected ∧
      (s.Client → (s.connect fail).1.Client) := by
  unfold connect
  split
  next => exact ⟨rfl, rfl, fun hc => hc⟩
  next =>
    split
    next => exact ⟨rfl, rfl, fun hc => hc⟩
    next =>
      split
      next => exact ⟨rfl, rfl, fun hc => hc⟩
      next =>
        cases fail with
        | none => exact ⟨rfl, rfl, fun hc => hc⟩
        | some err => exact ⟨rfl, rfl, fun hc => hc⟩

/-- `connect` issues a `ConnectEx` only when it is accepted. -/
theorem connect_refused {fail : Option Nat} (h : (s.connect fail).2 = false) : (s.connect fail).1.conns = s.conns := by
  unfold connect at h ⊢
  split
  next => rfl
  next =>
    split
    next => rfl
    next =>
      split
      next => rfl
      next hclient hoff hidle =>
        cases fail with
        | none => simp [hclient, hoff, hidle] at h
        | some err => rfl

theorem onConn_conns (s : SessionTCP α) (err : Nat) (o : Opening α) :
    (s._on_conn err o).conns = s.conns ∧ (s.Client → (s._on_conn err o).Client) := by
  unfold _on_conn
  dsimp only
  split
  next =>
    have hrecord := still_frame.record { s with isConnecting := false } (.refused err) nofun
    have h := still_frame.trans _ _ _ hrecord (still_frame.calls _ o.onDisc (Call.allWithin_true o.onDisc))
    exact ⟨h.conns, h.client⟩
  next =>
    have opens := opened_spec { s with isConnecting := false }
    have hcalls := still_frame.calls { s with isConnecting := false }.opened o.onConn (Call.allWithin_true o.onConn)
    have hrecv := still_frame.recv (fun s => still_frame.calls s o.onDisc (Call.allWithin_true o.onDisc))
      ({ s with isConnecting := false }.opened.calls o.onConn) o.fail o.ok
    have h := still_frame.trans _ _ _ hcalls hrecv
    rw [onConnInit_eq]
    exact ⟨h.conns.trans opens.conns, fun hc => h.client ⟨opens.isServer.trans hc.1, opens.pooled.trans hc.2⟩⟩

theorem gen_conn (s : SessionTCP α) : (s.record .conn).gen = s.gen + 1 := by
  simp [gen, record]

theorem opened_gen (s : SessionTCP α) : s.opened.gen = s.gen + 1 := by
  rw [gen, s.opened_spec.trace]
  exact gen_conn s

theorem onConn_gen (s : SessionTCP α) (err : Nat) (o : Opening α) :
    (s._on_conn err o).gen = if err ≠ 0 then s.gen else s.gen + 1 := by
  unfold _on_conn
  dsimp only
  split
  next =>
    have hrecord := still_frame.record { s with isConnecting := false } (.refused err) nofun
    exact ((still_frame.calls _ o.onDisc (Call.allWithin_true o.onDisc)).gen).trans hrecord.gen
  next =>
    have hcalls := still_frame.calls { s with isConnecting := false }.opened o.onConn (Call.allWithin_true o.onConn)
    have hrecv := still_frame.recv (fun s => still_frame.calls s o.onDisc (Call.allWithin_true o.onDisc))
      ({ s with isConnecting := false }.opened.calls o.onConn) o.fail o.ok
    rw [onConnInit_eq]
    exact (hrecv.gen.trans hcalls.gen).trans (opened_gen _)

/-- A client session stays one, and once connected has a connection to count from. -/
theorem Client.step {op : LifeOp α} (h : s.Client) (hs : s.step op = some s') :
    s'.Client ∧ (0 < s.gen → 0 < s'.gen) := by
  rcases still_frame.step op.within_true hs with
    ⟨still, _⟩ | ⟨fail, _, hs'⟩ | ⟨updated, o, _, hpos, _⟩ | ⟨err, o, _, hpos, hs'⟩
  · exact ⟨still.client h, fun hgen => still.gen.symm ▸ hgen⟩
  · obtain ⟨hgen, _, hclient⟩ := connect_off s fail
    rw [hs', hgen]
    exact ⟨hclient h, fun hpos => hpos⟩
  · have hnone := h.2
    omega
  · have hclient := (onConn_conns { s with conns := s.conns - 1 } err o).2 h
    have hgen : s'.gen = if err ≠ 0 then s.gen else s.gen + 1 := by
      rw [hs']
      exact onConn_gen { s with conns := s.conns - 1 } err o
    refine ⟨hs' ▸ hclient, fun hpos => ?_⟩
    rw [hgen]
    split
    next => exact hpos
    next => exact Nat.succ_pos _

theorem not_asks {c : Call α} (plain : c.within (· == false) = true) :
    c.asks id = false ∧ Call.allWithin (· == false) c.onDisc = true := by
  cases c with
  | send buf answers ok onDisc =>
    simp only [Call.within] at plain
    exact ⟨rfl, plain⟩
  | disconnect isRelease onDisc =>
    simp only [Call.within, Bool.and_eq_true, beq_iff_eq] at plain
    exact ⟨plain.1, plain.2⟩

theorem not_any_asks {cs : List (Call α)} (plain : Call.allWithin (· == false) cs = true) : cs.any (Call.asks id) = false := by
  induction cs with
  | nil => rfl
  | cons c cs ih =>
    simp only [Call.allWithin, Bool.and_eq_true] at plain
    rw [List.any_cons, (not_asks plain.1).1, ih plain.2]
    rfl

theorem not_asksInAll {cs : List (Call α)} (plain : Call.allWithin (· == false) cs = true) (s : SessionTCP α) :
    asksInAll id s cs = false := by
  induction cs generalizing s with
  | nil => rfl
  | cons c cs ih =>
    simp only [Call.allWithin, Bool.and_eq_true] at plain
    obtain ⟨hasks, honDisc⟩ := not_asks plain.1
    simp only [asksInAll, asksIn, hasks, not_any_asks honDisc, ih plain.2, Bool.and_false, Bool.or_false]

theorem not_asksInPackets {g : Nat} {packets : List (List (Call α))}
    (plain : packets.all (Call.allWithin (· == false)) = true) (s : SessionTCP α) : asksInPackets id g s packets = false := by
  induction packets generalizing s with
  | nil => rfl
  | cons cs packets ih =>
    simp only [List.all_cons, Bool.and_eq_true] at plain
    simp only [asksInPackets, not_asksInAll plain.1, ih plain.2, Bool.or_false]

theorem not_asksInOpening {o : Opening α} (plain : o.within (· == false) = true) (s : SessionTCP α) :
    s.asksInOpening id o = false := by
  simp only [Opening.within, Bool.and_eq_true] at plain
  simp only [asksInOpening, not_asksInAll plain.1, not_any_asks plain.2, Bool.and_false, Bool.or_false]

/-- Users who only call `disconnect(false)` do not call `disconnect(true)`. -/
theorem not_asked {op : LifeOp α} (plain : op.within (· == false) = true) (s : SessionTCP α) : s.asked id op = false := by
  cases op with
  | connect fail => rfl
  | call c =>
    obtain ⟨hasks, honDisc⟩ := not_asks plain
    simp only [asked, asksIn, hasks, not_any_asks honDisc, Bool.and_false, Bool.or_false]
  | accept updated o =>
    simp only [asked, not_asksInOpening plain, Bool.and_false]
  | conn err o =>
    simp only [asked, not_asksInOpening plain]
    simp only [LifeOp.within, Opening.within, Bool.and_eq_true] at plain
    rw [not_any_asks plain.2]
    split
    next => rfl
    next => rfl
  | disc onDisc => exact not_any_asks plain
  | recv g err bytes packets bad fail ok onDisc =>
    simp only [LifeOp.within, Bool.and_eq_true] at plain
    simp only [asked, not_asksInPackets plain.1, not_any_asks plain.2, Bool.and_false, Bool.or_false]
  | send sov g err answers ok onDisc =>
    simp only [asked, not_any_asks plain, Bool.and_false]

end SessionTCP

end Ven
