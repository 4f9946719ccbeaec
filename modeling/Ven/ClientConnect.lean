import Ven.LifeFrame

namespace Ven

variable {α : Type}

/-- What a user of a client session calls, in its callbacks too; `fail` is the error with which a `ConnectEx` fails
at once. -/
inductive ClientCall (α : Type)
  | connect (fail : Option Nat)
  | send (buf : Option α) (answers : List (Option Nat)) (ok : Bool) (onDisc : List (ClientCall α))
  | disconnect (isRelease : Bool) (onDisc : List (ClientCall α))

structure ClientOpening (α : Type) where
  onConn : List (ClientCall α)
  fail : Option Nat
  ok : Bool
  onDisc : List (ClientCall α)

inductive ClientOp (α : Type)
  | call (c : ClientCall α)
  | conn (err : Nat) (o : ClientOpening α)
  | disc (onDisc : List (ClientCall α))
  | recv (g err bytes : Nat) (packets : List (List (ClientCall α))) (bad : Bool) (fail : Option Nat) (ok : Bool)
      (onDisc : List (ClientCall α))
  | send (sov g err : Nat) (answers : List (Option Nat)) (ok : Bool) (onDisc : List (ClientCall α))

namespace ClientSession

mutual

def call (s : SessionTCP α) : ClientCall α → SessionTCP α
  | .connect fail => (s.connect fail).1
  | .send buf answers ok onDisc => (s.send buf answers ok fun s => calls s onDisc).1
  | .disconnect isRelease onDisc => s.disconnect isRelease fun s => calls s onDisc

def calls (s : SessionTCP α) : List (ClientCall α) → SessionTCP α
  | [] => s
  | c :: cs => calls (call s c) cs

end

def _on_conn_init (s : SessionTCP α) (o : ClientOpening α) : SessionTCP α :=
  (calls s.opened o.onConn).recv o.fail o.ok fun s => calls s o.onDisc

def _on_conn (s : SessionTCP α) (err : Nat) (o : ClientOpening α) : SessionTCP α :=
  let s := { s with isConnecting := false }
  if err ≠ 0 then calls (s.record (.refused err)) o.onDisc
  else _on_conn_init s o

def deliver (g : Nat) : List (List (ClientCall α)) → SessionTCP α → SessionTCP α
  | [], s => s
  | cs :: packets, s => deliver g packets (calls (s.record (.recv g)) cs)

def _on_recv (s : SessionTCP α) (g err bytes : Nat) (packets : List (List (ClientCall α))) (bad : Bool)
    (fail : Option Nat) (ok : Bool) (onDisc : SessionTCP α → SessionTCP α) : SessionTCP α :=
  if err ≠ 0 ∨ bytes = 0 then { s with isReceiving := false }._disconnect err ok onDisc
  else
    let s := deliver g packets s
    if bad then { s with isReceiving := false }._disconnect 16000 ok onDisc
    else
      let s := { s with isReceiving := false }
      if !s.isConnected then s._disconnect 0 ok onDisc
      else s.recv fail ok onDisc

def handle (s : SessionTCP α) : ClientOp α → Option (SessionTCP α)
  | .call c => some (call s c)
  | .conn err o => if 0 < s.conns then some (_on_conn { s with conns := s.conns - 1 } err o) else none
  | .disc onDisc =>
    if 0 < s.discs then some ({ s with discs := s.discs - 1 }._on_disc fun s => calls s onDisc) else none
  | .recv g err bytes packets bad fail ok onDisc =>
    if g ∈ s.recvs then
      some (_on_recv { s with recvs := s.recvs.erase g } g err bytes packets bad fail ok fun s => calls s onDisc)
    else none
  | .send sov g err answers ok onDisc =>
    if s.sends.contains (sov, g) then
      some ({ s with sends := s.sends.erase (sov, g) }._on_send err sov ok (fun s => calls s onDisc)
        fun s => (s.send none answers ok fun s => calls s onDisc).1)
    else none

def step (s : SessionTCP α) (op : ClientOp α) : Option (SessionTCP α) :=
  if s.deleted || s.crashed then none else handle s op

end ClientSession

mutual

def Call.client : Call α → ClientCall α
  | .send buf answers ok onDisc => .send buf answers ok (Call.allClient onDisc)
  | .disconnect isRelease onDisc => .disconnect isRelease (Call.allClient onDisc)

def Call.allClient : List (Call α) → List (ClientCall α)
  | [] => []
  | c :: cs => c.client :: Call.allClient cs

end

def Opening.client (o : Opening α) : ClientOpening α :=
  ⟨Call.allClient o.onConn, o.fail, o.ok, Call.allClient o.onDisc⟩

/-- The step of a client, which is not accepted by a server. -/
def LifeOp.client : LifeOp α → Option (ClientOp α)
  | .connect fail => some (.call (.connect fail))
  | .call c => some (.call c.client)
  | .accept _ _ => none
  | .conn err o => some (.conn err o.client)
  | .disc onDisc => some (.disc (Call.allClient onDisc))
  | .recv g err bytes packets bad fail ok onDisc =>
    some (.recv g err bytes (packets.map Call.allClient) bad fail ok (Call.allClient onDisc))
  | .send sov g err answers ok onDisc => some (.send sov g err answers ok (Call.allClient onDisc))

namespace ClientSession

mutual

theorem call_client (s : SessionTCP α) : ∀ c : Call α, call s c.client = s.call c
  | .send buf answers ok onDisc => by
    have hdisc : (fun s => calls s (Call.allClient onDisc)) = fun s => s.calls onDisc := funext fun s => calls_client s onDisc
    simp only [Call.client, call, SessionTCP.call, hdisc]
  | .disconnect isRelease onDisc => by
    have hdisc : (fun s => calls s (Call.allClient onDisc)) = fun s => s.calls onDisc := funext fun s => calls_client s onDisc
    simp only [Call.client, call, SessionTCP.call, hdisc]

theorem calls_client (s : SessionTCP α) : ∀ cs : List (Call α), calls s (Call.allClient cs) = s.calls cs
  | [] => by simp only [Call.allClient, calls, SessionTCP.calls]
  | c :: cs => by
    simp only [Call.allClient, calls, SessionTCP.calls, call_client s c]
    exact calls_client (s.call c) cs

end

theorem deliver_client (g : Nat) (packets : List (List (Call α))) (s : SessionTCP α) :
    deliver g (packets.map Call.allClient) s = SessionTCP.deliver g packets s := by
  induction packets generalizing s with
  | nil => rfl
  | cons cs packets ih =>
    rw [List.map_cons, deliver, SessionTCP.deliver, calls_client]
    exact ih _

theorem onConnInit_client (s : SessionTCP α) (o : Opening α) : _on_conn_init s o.client = s._on_conn_init o := by
  rw [SessionTCP.onConnInit_eq]
  simp only [_on_conn_init, Opening.client, calls_client]

theorem onConn_client (s : SessionTCP α) (err : Nat) (o : Opening α) : _on_conn s err o.client = s._on_conn err o := by
  unfold _on_conn SessionTCP._on_conn
  simp only [onConnInit_client]
  simp only [Opening.client, calls_client]

/-- Where no callback connects, the client makes the steps of `SessionTCP`. -/
theorem step_client {op : LifeOp α} {cop : ClientOp α} (h : op.client = some cop) (s : SessionTCP α) :
    step s cop = s.step op := by
  have hhandle : handle s cop = s.handle op := by
    cases op with
    | connect fail =>
      cases Option.some.inj h
      simp only [handle, call, SessionTCP.handle]
    | call c =>
      cases Option.some.inj h
      simp only [handle, call_client, SessionTCP.handle]
    | accept updated o => cases h
    | conn err o =>
      cases Option.some.inj h
      simp only [handle, onConn_client, SessionTCP.handle]
    | disc onDisc =>
      cases Option.some.inj h
      simp only [handle, calls_client, SessionTCP.handle]
    | recv g err bytes packets bad fail ok onDisc =>
      cases Option.some.inj h
      simp only [handle, _on_recv, deliver_client, calls_client, SessionTCP.handle, SessionTCP._on_recv]
    | send sov g err answers ok onDisc =>
      cases Option.some.inj h
      simp only [handle, calls_client, SessionTCP.handle, List.contains_iff_mem]
  rw [step, SessionTCP.step, hhandle]

end ClientSession

mutual

/-- Every `ConnectEx` that is called among the calls, in callbacks too, has such an outcome. -/
def ClientCall.within (ok : Option Nat → Bool) : ClientCall α → Bool
  | .connect fail => ok fail
  | .send _ _ _ onDisc => ClientCall.allWithin ok onDisc
  | .disconnect _ onDisc => ClientCall.allWithin ok onDisc

def ClientCall.allWithin (ok : Option Nat → Bool) : List (ClientCall α) → Bool
  | [] => true
  | c :: cs => c.within ok && ClientCall.allWithin ok cs

end

def ClientOpening.within (ok : Option Nat → Bool) (o : ClientOpening α) : Bool :=
  ClientCall.allWithin ok o.onConn && ClientCall.allWithin ok o.onDisc

def ClientOp.within (ok : Option Nat → Bool) : ClientOp α → Bool
  | .call c => c.within ok
  | .conn _ o => o.within ok
  | .disc onDisc => ClientCall.allWithin ok onDisc
  | .recv _ _ _ packets _ _ _ onDisc => packets.all (ClientCall.allWithin ok) && ClientCall.allWithin ok onDisc
  | .send _ _ _ _ _ onDisc => ClientCall.allWithin ok onDisc

mutual

theorem ClientCall.within_true : ∀ c : ClientCall α, c.within (fun _ => true) = true
  | .connect _ => by simp only [ClientCall.within]
  | .send _ _ _ onDisc => by
    simp only [ClientCall.within]
    exact ClientCall.allWithin_true onDisc
  | .disconnect _ onDisc => by
    simp only [ClientCall.within]
    exact ClientCall.allWithin_true onDisc

theorem ClientCall.allWithin_true : ∀ cs : List (ClientCall α), ClientCall.allWithin (fun _ => true) cs = true
  | [] => by simp only [ClientCall.allWithin]
  | c :: cs => by
    simp only [ClientCall.allWithin, Bool.and_eq_true]
    exact ⟨ClientCall.within_true c, ClientCall.allWithin_true cs⟩

end

theorem ClientOp.within_true (op : ClientOp α) : op.within (fun _ => true) = true := by
  cases op with
  | call c => exact c.within_true
  | conn err o => simp only [ClientOp.within, ClientOpening.within, ClientCall.allWithin_true, Bool.and_true]
  | disc onDisc => exact ClientCall.allWithin_true onDisc
  | recv g err bytes packets bad fail ok onDisc =>
    simp only [ClientOp.within, Bool.and_eq_true]
    exact ⟨List.all_eq_true.mpr fun cs _ => ClientCall.allWithin_true cs, ClientCall.allWithin_true onDisc⟩
  | send sov g err answers ok onDisc => exact ClientCall.allWithin_true onDisc

namespace ClientSession

/-- A condition on `is_connecting_` and the outstanding `ConnectEx`s that `connect` keeps when its `ConnectEx` has
such an outcome, and the completion of a `ConnectEx` too. -/
structure Dialing (ok : Option Nat → Bool) (K : SessionTCP α → Prop) : Prop where
  only : ∀ s s' : SessionTCP α, s'.isServer = s.isServer → s'.isConnecting = s.isConnecting → s'.conns = s.conns → K s → K s'
  connect : ∀ s fail, ok fail = true → K s → K (s.connect fail).1
  done : ∀ s, K s → 0 < s.conns → K { s with conns := s.conns - 1, isConnecting := false }

variable {ok : Option Nat → Bool} {K : SessionTCP α → Prop} {s s' : SessionTCP α}

theorem Dialing.frame (h : Dialing ok K) : SessionTCP.Frame (fun _ => true) fun s s' => K s → K s' where
  refl _ hs := hs
  trans _ _ _ hst htu hs := htu (hst hs)
  record s _ _ := h.only s _ rfl rfl rfl
  off s _ := h.only s _ rfl rfl rfl
  fields s _ _ _ _ _ _ _ _ _ _ := h.only s _ rfl rfl rfl
  release s _ _ := h.only s _ rfl rfl rfl
  delete s _ := h.only s _ rfl rfl rfl
  giveBack s _ _ := h.only s _ rfl rfl rfl

mutual

theorem Dialing.call (h : Dialing ok K) (s : SessionTCP α) : ∀ c : ClientCall α, c.within ok = true → K s → K (call s c)
  | .connect fail, hok, hs => by
    simp only [ClientSession.call]
    simp only [ClientCall.within] at hok
    exact h.connect s fail hok hs
  | .send buf answers o onDisc, hok, hs => by
    simp only [ClientSession.call]
    simp only [ClientCall.within] at hok
    exact h.frame.send (fun s => Dialing.calls h s onDisc hok) s buf answers o hs
  | .disconnect isRelease onDisc, hok, hs => by
    simp only [ClientSession.call]
    simp only [ClientCall.within] at hok
    exact h.frame.disconnect (fun s => Dialing.calls h s onDisc hok) s rfl hs

theorem Dialing.calls (h : Dialing ok K) (s : SessionTCP α) :
    ∀ cs : List (ClientCall α), ClientCall.allWithin ok cs = true → K s → K (calls s cs)
  | [], _, hs => by
    simp only [ClientSession.calls]
    exact hs
  | c :: cs, hok, hs => by
    simp only [ClientSession.calls]
    simp only [ClientCall.allWithin, Bool.and_eq_true] at hok
    exact Dialing.calls h (ClientSession.call s c) cs hok.2 (Dialing.call h s c hok.1 hs)

end

theorem Dialing.deliver (h : Dialing ok K) (g : Nat) {packets : List (List (ClientCall α))}
    (hok : packets.all (ClientCall.allWithin ok) = true) (s : SessionTCP α) (hs : K s) : K (deliver g packets s) := by
  induction packets generalizing s with
  | nil => exact hs
  | cons cs packets ih =>
    simp only [List.all_cons, Bool.and_eq_true] at hok
    rw [ClientSession.deliver]
    exact ih hok.2 _ (h.calls _ cs hok.1 (h.only s _ rfl rfl rfl hs))

theorem Dialing.onRecv (h : Dialing ok K) {f : SessionTCP α → SessionTCP α} (kept : ∀ s, K s → K (f s)) (g err bytes : Nat)
    {packets : List (List (ClientCall α))} (hok : packets.all (ClientCall.allWithin ok) = true) (bad : Bool)
    (fail : Option Nat) (o : Bool) (hs : K s) : K (_on_recv s g err bytes packets bad fail o f) := by
  unfold _on_recv
  split
  next => exact h.frame.torn kept s err o hs
  next =>
    have hd := h.deliver g hok s hs
    dsimp only
    split
    next => exact h.frame.torn kept _ 16000 o hd
    next => exact h.frame.received kept _ fail o hd

theorem Dialing.onConn (h : Dialing ok K) (err : Nat) {o : ClientOpening α} (hok : o.within ok = true)
    (hs : K { s with isConnecting := false }) : K (_on_conn s err o) := by
  simp only [ClientOpening.within, Bool.and_eq_true] at hok
  unfold _on_conn
  dsimp only
  split
  next => exact h.calls _ o.onDisc hok.2 (h.only { s with isConnecting := false } _ rfl rfl rfl hs)
  next =>
    have opens := SessionTCP.opened_spec { s with isConnecting := false }
    have hopened := h.only _ _ opens.isServer opens.isConnecting opens.conns hs
    exact h.frame.recv (fun s => h.calls s o.onDisc hok.2) _ o.fail o.ok (h.calls _ o.onConn hok.1 hopened)

theorem Dialing.step (h : Dialing ok K) {op : ClientOp α} (hok : op.within ok = true) (hs : K s)
    (hstep : step s op = some s') : K s' := by
  unfold ClientSession.step at hstep
  split at hstep
  next => cases hstep
  next =>
    cases op with
    | call c =>
      cases Option.some.inj hstep
      exact h.call s c hok hs
    | conn err o =>
      simp only [handle] at hstep
      split at hstep
      next hpos =>
        cases Option.some.inj hstep
        exact h.onConn err hok (h.done s hs hpos)
      next => cases hstep
    | disc onDisc =>
      simp only [handle] at hstep
      split at hstep
      next =>
        cases Option.some.inj hstep
        exact h.frame.onDisc (fun s => h.calls s onDisc hok) _ (h.only s _ rfl rfl rfl hs)
      next => cases hstep
    | recv g err bytes packets bad fail o onDisc =>
      simp only [handle] at hstep
      split at hstep
      next =>
        cases Option.some.inj hstep
        simp only [ClientOp.within, Bool.and_eq_true] at hok
        exact h.onRecv (fun s => h.calls s onDisc hok.2) g err bytes hok.1 bad fail o (h.only s _ rfl rfl rfl hs)
      next => cases hstep
    | send sov g err answers o onDisc =>
      simp only [handle] at hstep
      split at hstep
      next =>
        cases Option.some.inj hstep
        have kept := fun s => h.calls s onDisc hok
        exact h.frame.onSend kept _ err sov o (fun s => h.frame.send kept s none answers o) (h.only s _ rfl rfl rfl hs)
      next => cases hstep

theorem Dialing.exec (h : Dialing ok K) {ops : List (ClientOp α)} (hok : ∀ op ∈ ops, op.within ok = true) (hs : K s)
    (run : Machine.exec ClientSession.step s ops = some s') : K s' :=
  Machine.exec_invariant_along (G := fun _ op => op.within ok = true) (fun _ _ _ hs hok hstep => h.step hok hs hstep) hs
    (Machine.along_of_forall (fun op hop _ => hok op hop) s) run

/-- `is_connecting_` tells whether a `ConnectEx` is outstanding. -/
def Linked (s : SessionTCP α) : Prop := s.isServer = false ∧ s.conns = if s.isConnecting then 1 else 0

/-- `is_connecting_` is set, and no `ConnectEx` will clear it. -/
def Stuck (s : SessionTCP α) : Prop := s.isServer = false ∧ s.isConnecting = true ∧ s.conns = 0

/-- `connect()` comes to its `ConnectEx`. -/
def Dials (s : SessionTCP α) : Prop := s.isConnected = false ∧ s.isConnecting = false

/-- A `connect()` whose `ConnectEx` pends would issue it. -/
def Able (s : SessionTCP α) : Prop := (s.connect none).1.conns = s.conns + 1

theorem connect_dials (client : s.isServer = false) (h : Dials s) (fail : Option Nat) : s.connect fail =
    match fail with
    | none => ({ s with isConnecting := true, conns := s.conns + 1 }, true)
    | some _ => ({ s with isConnecting := true }, false) := by
  rw [SessionTCP.connect, client, h.1, h.2]
  cases fail with
  | none => rfl
  | some err => rfl

theorem connect_idle (client : s.isServer = false) (h : ¬Dials s) (fail : Option Nat) : s.connect fail = (s, true) := by
  rw [SessionTCP.connect, client]
  unfold Dials at h
  cases hon : s.isConnected with
  | true => rfl
  | false =>
    cases hconnecting : s.isConnecting with
    | true => rfl
    | false => exact absurd ⟨hon, hconnecting⟩ h

theorem Stuck.connect (h : Stuck s) (fail : Option Nat) : s.connect fail = (s, true) :=
  connect_idle h.1 (fun hd => Bool.false_ne_true (hd.2.symm.trans h.2.1)) fail

theorem Stuck.not_able (h : Stuck s) : ¬Able s := by
  unfold Able
  rw [h.connect]
  exact (Nat.succ_ne_self s.conns).symm

theorem linked_dialing : Dialing Option.isNone (@Linked α) where
  only s s' hserver hconnecting hconns h := by
    unfold Linked
    rw [hserver, hconnecting, hconns]
    exact h
  connect s fail hok h := by
    cases fail with
    | some err => cases hok
    | none =>
      by_cases hd : Dials s
      · rw [connect_dials h.1 hd]
        refine ⟨h.1, ?_⟩
        have hconns := h.2
        rw [hd.2] at hconns
        dsimp only
        rw [hconns]
        rfl
      · rw [connect_idle h.1 hd]
        exact h
  done s h hpos := by
    refine ⟨h.1, ?_⟩
    have hconns := h.2
    dsimp only
    split at hconns
    next =>
      rw [hconns]
      rfl
    next => omega

theorem stuck_dialing : Dialing (fun _ => true) (@Stuck α) where
  only s s' hserver hconnecting hconns h := by
    unfold Stuck
    rw [hserver, hconnecting, hconns]
    exact h
  connect s fail _ h := by
    rw [h.connect]
    exact h
  done s h hpos := by
    have hnone := h.2.2
    omega

theorem Linked.connecting_iff (h : Linked s) : s.isConnecting = true ↔ 0 < s.conns := by
  rw [h.2]
  split
  next hc => exact ⟨fun _ => Nat.one_pos, fun _ => hc⟩
  next hc => exact ⟨fun ht => absurd ht hc, fun hpos => absurd hpos (lt_irrefl 0)⟩

theorem Linked.reports (h : Linked s) {fail : Option Nat} (hret : (s.connect fail).2 = true)
    (hissued : (s.connect fail).1.conns = s.conns) : s.isConnected = true ∨ 0 < s.conns := by
  by_cases hd : Dials s
  · rw [connect_dials h.1 hd] at hret hissued
    cases fail with
    | none => exact absurd hissued (Nat.succ_ne_self s.conns)
    | some err => cases hret
  · unfold Dials at hd
    rw [← h.connecting_iff]
    cases hon : s.isConnected with
    | true => exact Or.inl rfl
    | false =>
      refine Or.inr (Bool.eq_true_of_not_eq_false fun hconnecting => hd ⟨hon, hconnecting⟩)

/-- After a `ConnectEx` that failed at once. -/
theorem Linked.stuck (h : Linked s) (hd : Dials s) (err : Nat) : Stuck (s.connect (some err)).1 := by
  rw [connect_dials h.1 hd]
  have hconns := h.2
  rw [hd.2] at hconns
  exact ⟨h.1, rfl, hconns⟩

theorem Linked.able_iff (h : Linked s) (fail : Option Nat) :
    ((s.connect fail).2 = false → Able (s.connect fail).1) ↔ (Dials s → fail = none) := by
  by_cases hd : Dials s
  · cases fail with
    | none =>
      rw [connect_dials h.1 hd]
      exact ⟨fun _ _ => rfl, fun _ hret => by cases hret⟩
    | some err =>
      have hret : (s.connect (some err)).2 = false := by rw [connect_dials h.1 hd]
      refine ⟨fun hable => absurd (hable hret) (h.stuck hd err).not_able, fun hnone => by cases hnone hd⟩
  · rw [connect_idle h.1 hd]
    exact ⟨fun _ hd' => absurd hd' hd, fun _ hret => by cases hret⟩

/-- While no `ConnectEx` fails at once, `is_connecting_` tells whether one is outstanding and no `connect()` deceives
its caller. A `connect()` that returns false leaves the session able to connect just when its `ConnectEx` did not
fail, and after one that did no later step helps. -/
theorem connect_retriable {initCnt stepCnt arrCnt : Nat} {ops : List (ClientOp α)} {s : SessionTCP α}
    (pend : ∀ op ∈ ops, op.within Option.isNone = true)
    (run : Machine.exec step (SessionTCP.start false initCnt stepCnt arrCnt) ops = some s) :
    (s.isConnecting = true ↔ 0 < s.conns) ∧
    (∀ fail, (s.connect fail).2 = true → (s.connect fail).1.conns = s.conns → s.isConnected = true ∨ 0 < s.conns) ∧
    (∀ fail, ((s.connect fail).2 = false → Able (s.connect fail).1) ↔ (Dials s → fail = none)) ∧
    ∀ err, Dials s → ∀ ops' s', Machine.exec step (s.connect (some err)).1 ops' = some s' →
      s'.isConnecting = true ∧ s'.conns = 0 ∧ ∀ fail, s'.connect fail = (s', true) := by
  have linked : Linked s := linked_dialing.exec pend ⟨rfl, rfl⟩ run
  refine ⟨linked.connecting_iff, fun fail => linked.reports, linked.able_iff, fun err hd ops' s' run' => ?_⟩
  have stuck : Stuck s' := stuck_dialing.exec (fun op _ => op.within_true) (linked.stuck hd err) run'
  exact ⟨stuck.2.1, stuck.2.2, stuck.connect⟩

/-- A client that connects again from its `on_disc`, first after a refusal and then after a loss. -/
def persistent : List (ClientOp Nat) :=
  [.call (.connect none), .conn 10061 ⟨[], none, true, [.connect none]⟩, .conn 0 ⟨[.connect none], none, true, []⟩,
    .recv 1 64 0 [] false none true [], .disc [.connect none]]

theorem connect_retriable_sample :
    ∃ s, Machine.exec step (SessionTCP.start false 1 1 1) persistent = some s ∧ s.isConnected = false ∧ s.conns = 1 ∧
      (s.isConnecting = true ↔ 0 < s.conns) := by
  have run : (Machine.exec step (SessionTCP.start false 1 1 1) persistent).map (fun s => (s.isConnected, s.conns)) =
      some (false, 1) := by decide +kernel
  obtain ⟨s, run, hs⟩ := Option.map_eq_some_iff.mp run
  simp only [Prod.mk.injEq] at hs
  exact ⟨s, run, hs.1, hs.2, (connect_retriable (by decide +kernel) run).1⟩

/-- A client that is closed by its user connects again from its `on_disc`, where the socket is still closed. -/
def hopeless : List (ClientOp Nat) :=
  [.call (.connect none), .conn 0 ⟨[], none, true, []⟩, .call (.disconnect false []),
    .recv 1 64 0 [] false none true [.connect (some 10038)]]

theorem connect_lost :
    ∃ s, Machine.exec step (SessionTCP.start false 1 1 1) hopeless = some s ∧ s.isConnected = false ∧
      ¬(s.isConnecting = true ↔ 0 < s.conns) ∧ ¬Able s ∧ (s.connect none).2 = true ∧ (s.connect none).1.conns = 0 := by
  have run : (Machine.exec step (SessionTCP.start false 1 1 1) hopeless).map
      (fun s => (s.isConnected, s.isConnecting, s.conns, (s.connect none).2, (s.connect none).1.conns)) =
      some (false, true, 0, true, 0) := by decide +kernel
  obtain ⟨s, run, hs⟩ := Option.map_eq_some_iff.mp run
  simp only [Prod.mk.injEq] at hs
  obtain ⟨hon, hconnecting, hconns, hret, hissued⟩ := hs
  refine ⟨s, run, hon, fun h => ?_, fun h => ?_, hret, hissued⟩
  · have hpos := h.mp hconnecting
    omega
  · unfold Able at h
    omega

end ClientSession

end Ven
