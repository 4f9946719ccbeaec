import Ven.Echo

namespace Ven

variable {σ τ : Type} {P : IMemPool σ} {Q : IMemPool τ} {C : PoolContract P} {D : PoolContract Q} {rbs rbc : Nat}

open SessionTCP

namespace Sender

variable {α : Type} {s s' : Sender α}

/-- What thread 0 has passed to `send` and not put into `sov_` yet. -/
def entering (s : Sender α) : List α :=
  match s.thread 0 with
  | .entered buf _ => buf.toList
  | _ => []

/-- Only thread 0 passes `Buf`s to `send`. -/
def Alone (s : Sender α) : Prop := ∀ t buf resumed, t ≠ 0 → s.thread t ≠ .entered (some buf) resumed

/-- On the way through `send` nothing is lost or overtaken. -/
theorem Ready.entering_step (h : Ready s) (alone : Alone s) {op : SendOp α} (hcall : op.IsCall = false)
    (hs : s.step op = some s') : s'.accepted ++ s'.entering = s.accepted ++ s.entering ∧ Alone s' := by
  rcases h.turned hs with same | ⟨t, pc, added, out, inflight, turned⟩
  · refine ⟨?_, fun t buf resumed ht => ?_⟩
    · unfold entering
      rw [same.accepted, same.thread]
    · rw [same.thread]
      exact alone t buf resumed ht
  · have hturn := turned.turn
    have hpc : ∀ buf resumed, pc ≠ .entered (some buf) resumed := by
      intro buf resumed hpc
      generalize s.thread t = before at hturn
      subst hpc
      cases hturn with
      | call => cases hcall
      | check _ _ hcase => rcases hcase with hcase | hcase | hcase <;> cases hcase
      | resume hcase => rcases hcase with hcase | hcase <;> cases hcase
    refine ⟨?_, fun u buf resumed hu => ?_⟩
    · rw [turned.accepted]
      by_cases ht : t = 0
      · subst ht
        have hafter : s'.entering = [] := by
          unfold entering
          rw [turned.thread, Function.update_self]
          generalize s.thread 0 = before at hturn
          cases hturn with
          | check _ _ hcase => rcases hcase with rfl | rfl | rfl <;> rfl
          | resume hcase => rcases hcase with rfl | rfl <;> rfl
          | call => cases hcall
          | _ => rfl
        have hadded : added = s.entering := by
          unfold entering
          generalize s.thread 0 = before at hturn
          cases hturn <;> rfl
        rw [hafter, hadded, List.append_nil]
      · have hsame : s'.entering = s.entering := by
          unfold entering
          rw [turned.thread, Function.update_of_ne (Ne.symm ht)]
        have hadded : added = [] := by
          generalize hbefore : s.thread t = before at hturn
          cases hturn with
          | stay buf resumed | pop buf resumed =>
            cases buf with
            | none => rfl
            | some buf => exact absurd hbefore (alone t buf resumed ht)
          | _ => rfl
        rw [hsame, hadded, List.append_nil]
    · rw [turned.thread]
      by_cases hut : u = t
      · rw [hut, Function.update_self]
        exact hpc buf resumed
      · rw [Function.update_of_ne hut]
        exact alone u buf resumed hu

theorem Ready.stays (h : Ready s) {op : SendOp α} (hop : op.IsConn = false) (hs : s.step op = some s')
    (hc : s'.isConnected = true) : s.isConnected = true := by
  rcases h.turned hs with same | ⟨t, pc, added, out, inflight, turned⟩
  · rcases same.stays hc with hon | ⟨actor, rfl⟩
    · exact hon
    · cases hop
  · exact turned.stays hc

/-- `send` of a session that is not connected does nothing. -/
theorem call_cases {buf : α} (hs : s.step (.call 0 (some buf)) = some s') : s.thread 0 = .idle ∧
    (s.isConnected = true ∧ s' = s.goto 0 (.entered (some buf) false) ∨ s.isConnected = false ∧ s' = s) := by
  cases Move.of_step hs with
  | enter idle on => exact ⟨idle, Or.inl ⟨on, rfl⟩⟩
  | refuse idle off => exact ⟨idle, Or.inr ⟨off, rfl⟩⟩

theorem Ready.conn_cases (h : Ready s) {actor : Nat} (hs : s.step (.conn actor) = some s') :
    s'.isConnected = true ∧ s'.thread = s.thread ∧ s'.accepted = s.accepted := by
  cases Move.of_step hs with
  | conn => exact ⟨rfl, rfl, rfl⟩
  | connFails bare _ init =>
    obtain ⟨new, p, hp, _⟩ := h.owned.conn bare actor
    cases hp.symm.trans init

end Sender

namespace Link

variable {l l' : Link σ}

theorem unsent (l : Link σ) {op : LinkOp} (hop : ∀ op', op ≠ .send op') : l.InTurn op ∧ op.Packet := by
  cases op with
  | send op => exact absurd rfl (hop op)
  | _ => exact ⟨trivial, trivial⟩

theorem step_sender {op : LinkOp} (hop : ∀ op', op ≠ .send op') (hs : l.step rbs P op = some l') :
    l'.sender = l.sender := by
  cases op with
  | send op => exact absurd rfl (hop op)
  | recv data calls =>
    simp only [Link.step] at hs
    split at hs
    next =>
      obtain ⟨r, _, rfl⟩ := Option.map_eq_some_iff.mp hs
      rfl
    next => cases hs
  | conn ops =>
    obtain ⟨r, _, rfl⟩ := Option.map_eq_some_iff.mp hs
    rfl
  | lost err =>
    obtain ⟨r, _, rfl⟩ := Option.map_eq_some_iff.mp hs
    rfl
  | user op =>
    cases Option.some.inj hs
    rfl
  | drop err =>
    cases Option.some.inj hs
    rfl

/-- Only a new connection connects the receiving session. -/
theorem step_stays {op : LinkOp} (hsend : ∀ op', op ≠ .send op') (hconn : ∀ ops, op ≠ .conn ops)
    (hs : l.step rbs P op = some l') (hc : l'.receiver.isConnected = true) : l.receiver.isConnected = true := by
  cases op with
  | send op => exact absurd rfl (hsend op)
  | conn ops => exact absurd rfl (hconn ops)
  | recv data calls =>
    simp only [Link.step] at hs
    split at hs
    next =>
      obtain ⟨r, hr, rfl⟩ := Option.map_eq_some_iff.mp hs
      exact Receiver.step_stays (by intro ops he; cases he) hr hc
    next => cases hs
  | lost err =>
    obtain ⟨r, hr, rfl⟩ := Option.map_eq_some_iff.mp hs
    exact Receiver.step_stays (by intro ops he; cases he) hr hc
  | user op =>
    cases Option.some.inj hs
    exact Receiver.user_stays op hc
  | drop err =>
    cases Option.some.inj hs
    exact absurd ((Receiver.disconnect_off l.receiver err).symm.trans hc) Bool.false_ne_true

theorem Flowing.cutOff (f : Flowing C rbs l) (connected : Bool) : Flowing C rbs (l.cutOff connected) := by
  unfold Link.cutOff
  split
  next => exact f
  next =>
    have hs : l.sender.step .disconnect = some { l.sender with isConnected := false } := rfl
    exact ⟨(f.ready.step hs).1, f.fits, f.ready.woken f.woken hs, f.ready.covered f.covered hs,
      f.ready.inOrder f.order (by exact trivial) hs, f.ready.carries f.packets (by exact fun _ _ => nofun) hs, f.stream⟩

theorem Flowing.hangUp (f : Flowing C rbs l) (connected : Bool) (err : Nat) : Flowing C rbs (l.hangUp connected err) := by
  unfold Link.hangUp
  split
  next => exact f
  next => exact (f.receiver fun _ hreads => hreads.drop err).1

theorem cutOff_leaves (l : Link σ) (connected : Bool) :
    (l.cutOff connected).receiver = l.receiver ∧ (l.cutOff connected).sender.thread = l.sender.thread ∧
      (l.cutOff connected).sender.accepted = l.sender.accepted ∧
      (l.cutOff connected).sender.isConnected = (l.sender.isConnected && connected) := by
  unfold cutOff
  cases connected with
  | true => exact ⟨rfl, rfl, rfl, (Bool.and_true _).symm⟩
  | false => exact ⟨rfl, rfl, rfl, (Bool.and_false _).symm⟩

theorem countable_cutOff {connected : Bool} (h : (l.cutOff connected).Countable) : l.Countable := by
  unfold cutOff at h
  split at h
  next => exact h
  next => exact h

theorem hangUp_leaves (l : Link σ) (connected : Bool) (err : Nat) :
    (l.hangUp connected err).sender = l.sender ∧ (l.hangUp connected err).delivered = l.delivered ∧
      (l.hangUp connected err).receiver.isConnected = (l.receiver.isConnected && connected) := by
  unfold hangUp
  cases connected with
  | true => exact ⟨rfl, rfl, (Bool.and_true _).symm⟩
  | false =>
    refine ⟨rfl, ?_, (Receiver.disconnect_off _ err).trans (Bool.and_false _).symm⟩
    unfold delivered
    rw [if_neg Bool.false_ne_true, (Receiver.disconnect_leaves l.receiver err).2.2.1]

/-- A session that connects has not delivered anything before. -/
theorem Flowing.conn_fresh (f : Flowing C rbs l) {ops : List UserOp} (hs : l.step rbs P (.conn ops) = some l') :
    l.delivered = [] := by
  obtain ⟨r, hr, rfl⟩ := Option.map_eq_some_iff.mp hs
  obtain ⟨got, hreads, _⟩ := f.stream
  simp only [Receiver.step] at hr
  split at hr
  next => cases hr
  next hguard =>
    have hm : l.receiver.rbuf.buf.mem = none := by_contra fun hm => hguard (Or.inl hm)
    unfold Link.delivered
    rw [hreads.frames, hreads.fresh hm, refParse_nil]

end Link

namespace Echo

variable {e e' : Echo σ τ}

/-- What the server has been given is, in this order, what it has accepted for sending, what it is about to, and what is
left to do; nothing was dropped unless the connection is gone. -/
structure Coupled (C : PoolContract P) (D : PoolContract Q) (rbs rbc : Nat) (e : Echo σ τ) : Prop where
  up : e.up.Flowing C rbs
  down : e.down.Flowing D rbc
  server : e.up.receiver.isConnected = e.down.sender.isConnected
  client : e.down.receiver.isConnected = e.up.sender.isConnected
  alone : e.down.sender.Alone
  echoed : ∃ dropped, e.down.sender.accepted ++ e.down.sender.entering ++ dropped ++ e.todo = e.up.delivered ∧
    (e.down.sender.isConnected = true → dropped = [])

theorem Coupled.todo_whole (c : Coupled C D rbs rbc e) : ∀ buf ∈ e.todo, Whole buf := by
  intro buf hbuf
  obtain ⟨dropped, hall, _⟩ := c.echoed
  have hin : buf ∈ e.up.delivered := by
    rw [← hall]
    exact List.mem_append_right _ hbuf
  exact c.up.packets.accepted buf (c.up.delivered.subset hin)

/-- A step of the client's receiving side. -/
theorem Coupled.clientSide (hu' : D.Units32) (hd' : (defaults rbc).Headed) (c : Coupled C D rbs rbc e) {op : LinkOp} (hsend : ∀ op', op ≠ .send op')
    (hconn : ∀ ops, op ≠ .conn ops) {down : Link τ}
    (hs : e.down.step rbc Q op = some down) :
    Coupled C D rbs rbc { e with up := e.up.cutOff down.receiver.isConnected, down := down } := by
  obtain ⟨hrecv, hthread, hacc, hon⟩ := Link.cutOff_leaves e.up down.receiver.isConnected
  have hsender := Link.step_sender hsend hs
  obtain ⟨turn, packet⟩ := Link.unsent e.down hsend
  have hflow := (c.down.step hu' hd' hs turn packet fun op' he => absurd he (hsend op')).1
  refine ⟨c.up.cutOff _, hflow, ?_, ?_, ?_, ?_⟩
  · change (e.up.cutOff _).receiver.isConnected = down.sender.isConnected
    rw [hrecv, hsender]
    exact c.server
  · change down.receiver.isConnected = (e.up.cutOff _).sender.isConnected
    rw [hon]
    cases hoff : down.receiver.isConnected with
    | false => exact (Bool.and_false _).symm
    | true => rw [← c.client, Link.step_stays hsend hconn hs hoff, Bool.and_true]
  · change down.sender.Alone
    rw [hsender]
    exact c.alone
  · obtain ⟨dropped, hall, hnone⟩ := c.echoed
    refine ⟨dropped, ?_, ?_⟩
    · change down.sender.accepted ++ down.sender.entering ++ dropped ++ e.todo = (e.up.cutOff _).delivered
      unfold Link.delivered
      rw [hsender, hrecv]
      exact hall
    · change down.sender.isConnected = true → dropped = []
      rw [hsender]
      exact hnone

/-- A step of the server's receiving side; `todo` are then the packets it has found. -/
theorem Coupled.serverSide (hu : C.Units32) (hd : (defaults rbs).Headed) (c : Coupled C D rbs rbc e) {op : LinkOp} (hsend : ∀ op', op ≠ .send op')
    (hconn : ∀ ops, op ≠ .conn ops) {up : Link σ} (hs : e.up.step rbs P op = some up) {todo : List (List UInt8)}
    (htodo : e.todo ++ up.delivered.drop e.up.delivered.length = todo)
    (hgrow : e.up.delivered <+: up.delivered) :
    Coupled C D rbs rbc { up := up, down := e.down.cutOff up.receiver.isConnected, todo := todo } := by
  obtain ⟨hrecv, hthread, hacc, hon⟩ := Link.cutOff_leaves e.down up.receiver.isConnected
  have hsender := Link.step_sender hsend hs
  obtain ⟨turn, packet⟩ := Link.unsent e.up hsend
  have hflow := (c.up.step hu hd hs turn packet fun op' he => absurd he (hsend op')).1
  refine ⟨hflow, c.down.cutOff _, ?_, ?_, ?_, ?_⟩
  · change up.receiver.isConnected = (e.down.cutOff _).sender.isConnected
    rw [hon]
    cases hoff : up.receiver.isConnected with
    | false => exact (Bool.and_false _).symm
    | true => rw [← c.server, Link.step_stays hsend hconn hs hoff, Bool.and_true]
  · change (e.down.cutOff _).receiver.isConnected = up.sender.isConnected
    rw [hrecv, hsender]
    exact c.client
  · intro t buf resumed ht
    change (e.down.cutOff _).sender.thread t ≠ _
    rw [hthread]
    exact c.alone t buf resumed ht
  · obtain ⟨dropped, hall, hnone⟩ := c.echoed
    refine ⟨dropped, ?_, fun hc => ?_⟩
    · change (e.down.cutOff _).sender.accepted ++ (e.down.cutOff _).sender.entering ++ dropped ++ todo = up.delivered
      have hentering : (e.down.cutOff up.receiver.isConnected).sender.entering = e.down.sender.entering := by
        unfold Sender.entering
        rw [hthread]
      have hsplit : up.delivered = e.up.delivered ++ up.delivered.drop e.up.delivered.length := by
        obtain ⟨more, hmore⟩ := hgrow
        rw [← hmore, List.drop_left]
      rw [hacc, hentering, ← htodo, hsplit, ← hall, List.drop_left]
      simp only [List.append_assoc]
    · have hboth : (e.down.sender.isConnected && up.receiver.isConnected) = true := hon.symm.trans hc
      exact hnone (Bool.and_eq_true_iff.mp hboth).1

theorem Coupled.client_step (hu : C.Units32) (hd : (defaults rbs).Headed) (c : Coupled C D rbs rbc e)
    {op : SendOp (List UInt8)} (hop : op.IsConn = false) (turn : e.up.sender.InTurn op)
    (packet : (LinkOp.send op).Packet) {up : Link σ} (hs : e.up.step rbs P (.send op) = some up)
    (countable : up.Countable) (err : Nat) :
    Coupled C D rbs rbc { e with up := up, down := e.down.hangUp up.sender.isConnected err } := by
  obtain ⟨hsender, hdelivered, hon⟩ := Link.hangUp_leaves e.down up.sender.isConnected err
  obtain ⟨hflow, hsame⟩ := c.up.step hu hd hs turn packet fun _ _ => countable
  have hrecv : up.receiver = e.up.receiver := Link.send_receiver hs
  refine ⟨hflow, c.down.hangUp _ err, ?_, ?_, ?_, ?_⟩
  · change up.receiver.isConnected = (e.down.hangUp _ err).sender.isConnected
    rw [hrecv, hsender]
    exact c.server
  · change (e.down.hangUp _ err).receiver.isConnected = up.sender.isConnected
    rw [hon]
    cases hoff : up.sender.isConnected with
    | false => exact Bool.and_false _
    | true => rw [c.client, c.up.ready.stays hop (c.up.send_sender hs countable) hoff, Bool.and_true]
  · change (e.down.hangUp _ err).sender.Alone
    rw [hsender]
    exact c.alone
  · obtain ⟨dropped, hall, hnone⟩ := c.echoed
    refine ⟨dropped, ?_, ?_⟩
    · change (e.down.hangUp _ err).sender.accepted ++ (e.down.hangUp _ err).sender.entering ++ dropped ++ e.todo =
        up.delivered
      rw [hsender, hsame fun _ _ => nofun]
      exact hall
    · change (e.down.hangUp _ err).sender.isConnected = true → dropped = []
      rw [hsender]
      exact hnone

theorem Coupled.server_step (hu' : D.Units32) (hd' : (defaults rbc).Headed) (c : Coupled C D rbs rbc e)
    {op : SendOp (List UInt8)} (hconn : op.IsConn = false) (hcall : op.IsCall = false) (turn : e.down.sender.InTurn op)
    {down : Link τ} (hs : e.down.step rbc Q (.send op) = some down) (countable : down.Countable) (err : Nat) :
    Coupled C D rbs rbc { e with up := e.up.hangUp down.sender.isConnected err, down := down } := by
  obtain ⟨hsender, hdelivered, hon⟩ := Link.hangUp_leaves e.up down.sender.isConnected err
  have packet : (LinkOp.send op).Packet := by
    cases op with
    | call t buf => cases hcall
    | _ => exact trivial
  have hstep := c.down.send_sender hs countable
  have hrecv : down.receiver = e.down.receiver := Link.send_receiver hs
  obtain ⟨hflowing, halone⟩ := c.down.ready.entering_step c.alone hcall hstep
  have hflow := (c.down.step hu' hd' hs turn packet fun _ _ => countable).1
  refine ⟨c.up.hangUp _ err, hflow, ?_, ?_, halone, ?_⟩
  · change (e.up.hangUp _ err).receiver.isConnected = down.sender.isConnected
    rw [hon]
    cases hoff : down.sender.isConnected with
    | false => exact Bool.and_false _
    | true => rw [c.server, c.down.ready.stays hconn hstep hoff, Bool.and_true]
  · change down.receiver.isConnected = (e.up.hangUp _ err).sender.isConnected
    rw [hrecv, hsender]
    exact c.client
  · obtain ⟨dropped, hall, hnone⟩ := c.echoed
    refine ⟨dropped, ?_, fun hc => hnone (c.down.ready.stays hconn hstep hc)⟩
    change down.sender.accepted ++ down.sender.entering ++ dropped ++ e.todo = (e.up.hangUp _ err).delivered
    rw [hflowing, hdelivered]
    exact hall

/-- `on_recv` passes the next packet to `send`, which drops it if the connection is gone. -/
theorem Coupled.onRecv (hu' : D.Units32) (hd' : (defaults rbc).Headed) (c : Coupled C D rbs rbc e) {buf : List UInt8}
    {todo : List (List UInt8)} (htodo : e.todo = buf :: todo) {down : Link τ}
    (hs : e.down.step rbc Q (.send (.call 0 (some buf))) = some down) (countable : down.Countable) :
    Coupled C D rbs rbc { e with down := down, todo := todo } := by
  have hwhole : Whole buf := c.todo_whole buf (by rw [htodo]; exact List.mem_cons_self)
  have hstep := c.down.send_sender hs countable
  have hrecv : down.receiver = e.down.receiver := Link.send_receiver hs
  have hflow := (c.down.step hu' hd' hs trivial hwhole fun _ _ => countable).1
  obtain ⟨hidle, hcase⟩ := Sender.call_cases hstep
  obtain ⟨dropped, hall, hnone⟩ := c.echoed
  have hbefore : e.down.sender.entering = [] := by
    unfold Sender.entering
    rw [hidle]
  rw [hbefore, htodo, List.append_nil] at hall
  rcases hcase with ⟨hon, hsender⟩ | ⟨hoff, hsender⟩
  · have hconn : down.sender.isConnected = e.down.sender.isConnected := by
      rw [hsender]
      rfl
    refine ⟨c.up, hflow, ?_, ?_, fun t x resumed ht => ?_, dropped, ?_, ?_⟩
    · change e.up.receiver.isConnected = down.sender.isConnected
      rw [hconn]
      exact c.server
    · change down.receiver.isConnected = e.up.sender.isConnected
      rw [hrecv]
      exact c.client
    · change down.sender.thread t ≠ _
      rw [hsender]
      change Function.update e.down.sender.thread 0 _ t ≠ _
      rw [Function.update_of_ne ht]
      exact c.alone t x resumed ht
    · change down.sender.accepted ++ down.sender.entering ++ dropped ++ todo = e.up.delivered
      have hafter : down.sender.entering = [buf] := by
        rw [hsender]
        rfl
      have hacc : down.sender.accepted = e.down.sender.accepted := by
        rw [hsender]
        rfl
      rw [hafter, hacc, ← hall, hnone hon]
      simp only [List.append_nil, List.append_assoc, List.singleton_append]
    · exact fun _ => hnone hon
  · refine ⟨c.up, hflow, ?_, ?_, ?_, dropped ++ [buf], ?_, fun hc => ?_⟩
    · change e.up.receiver.isConnected = down.sender.isConnected
      rw [hsender]
      exact c.server
    · change down.receiver.isConnected = e.up.sender.isConnected
      rw [hrecv]
      exact c.client
    · change down.sender.Alone
      rw [hsender]
      exact c.alone
    · change down.sender.accepted ++ down.sender.entering ++ (dropped ++ [buf]) ++ todo = e.up.delivered
      rw [hsender, hbefore, ← hall]
      simp only [List.append_nil, List.append_assoc, List.singleton_append]
    · change down.sender.isConnected = true at hc
      rw [hsender, hoff] at hc
      cases hc

theorem Coupled.connClient (hu : C.Units32) (hd : (defaults rbs).Headed) (hu' : D.Units32)
    (hd' : (defaults rbc).Headed) (c : Coupled C D rbs rbc e) {actor : Nat} {ops : List UserOp} {up : Link σ}
    {down : Link τ} (hup : e.up.step rbs P (.send (.conn actor)) = some up)
    (countable : up.Countable) (hdown : e.down.step rbc Q (.conn ops) = some down) :
    Coupled C D rbs rbc { e with up := up.cutOff down.receiver.isConnected, down := down } := by
  obtain ⟨hrecv, hthread, hacc, hon⟩ := Link.cutOff_leaves up down.receiver.isConnected
  have hsender := Link.step_sender (by intro ops he; cases he) hdown
  have hup' : up.receiver = e.up.receiver := Link.send_receiver hup
  have hconn := (c.up.ready.conn_cases (c.up.send_sender hup countable)).1
  have hflow := (c.up.step hu hd hup trivial trivial fun _ _ => countable).1
  have hflow' := (c.down.step hu' hd' hdown trivial trivial (by intro op he; cases he)).1
  refine ⟨hflow.cutOff _, hflow', ?_, ?_, ?_, ?_⟩
  · change (up.cutOff _).receiver.isConnected = down.sender.isConnected
    rw [hrecv, hup', hsender]
    exact c.server
  · change down.receiver.isConnected = (up.cutOff _).sender.isConnected
    rw [hon, hconn, Bool.true_and]
  · change down.sender.Alone
    rw [hsender]
    exact c.alone
  · obtain ⟨dropped, hall, hnone⟩ := c.echoed
    refine ⟨dropped, ?_, ?_⟩
    · change down.sender.accepted ++ down.sender.entering ++ dropped ++ e.todo = (up.cutOff _).delivered
      unfold Link.delivered
      rw [hsender, hrecv, hup']
      exact hall
    · change down.sender.isConnected = true → dropped = []
      rw [hsender]
      exact hnone

theorem Coupled.connServer (hu : C.Units32) (hd : (defaults rbs).Headed) (hu' : D.Units32)
    (hd' : (defaults rbc).Headed) (c : Coupled C D rbs rbc e) {actor : Nat} {ops : List UserOp} {up : Link σ}
    {down : Link τ} (hdown : e.down.step rbc Q (.send (.conn actor)) = some down)
    (countable : down.Countable) (hup : e.up.step rbs P (.conn ops) = some up) :
    Coupled C D rbs rbc { e with up := up, down := down.cutOff up.receiver.isConnected } := by
  obtain ⟨hrecv, hthread, hacc, hon⟩ := Link.cutOff_leaves down up.receiver.isConnected
  have hsender := Link.step_sender (by intro ops he; cases he) hup
  have hdown' : down.receiver = e.down.receiver := Link.send_receiver hdown
  obtain ⟨hconn, hturns, hkept⟩ := c.down.ready.conn_cases (c.down.send_sender hdown countable)
  have hflow' := (c.down.step hu' hd' hdown trivial trivial fun _ _ => countable).1
  obtain ⟨hflow, hsame⟩ := c.up.step hu hd hup trivial trivial (by intro op he; cases he)
  have hdelivered : up.delivered = [] := (hsame fun _ _ => nofun).trans (c.up.conn_fresh hup)
  refine ⟨hflow, hflow'.cutOff _, ?_, ?_, ?_, ?_⟩
  · change up.receiver.isConnected = (down.cutOff _).sender.isConnected
    rw [hon, hconn, Bool.true_and]
  · change (down.cutOff _).receiver.isConnected = up.sender.isConnected
    rw [hrecv, hdown', hsender]
    exact c.client
  · intro t buf resumed ht
    change (down.cutOff _).sender.thread t ≠ _
    rw [hthread, hturns]
    exact c.alone t buf resumed ht
  · obtain ⟨dropped, hall, _⟩ := c.echoed
    rw [c.up.conn_fresh hup] at hall
    obtain ⟨hfront, htodo⟩ := List.append_eq_nil_iff.mp hall
    obtain ⟨hfront, hnil⟩ := List.append_eq_nil_iff.mp hfront
    refine ⟨[], ?_, fun _ => rfl⟩
    change (down.cutOff _).sender.accepted ++ (down.cutOff _).sender.entering ++ [] ++ e.todo = up.delivered
    have hentering : (down.cutOff up.receiver.isConnected).sender.entering = e.down.sender.entering := by
      unfold Sender.entering
      rw [hthread, hturns]
    rw [hacc, hkept, hentering, hfront, htodo, hdelivered]
    rfl

/-- One step of the two of them. -/
theorem Coupled.step (hu : C.Units32) (hd : (defaults rbs).Headed) (hu' : D.Units32) (hd' : (defaults rbc).Headed)
    (c : Coupled C D rbs rbc e) {op : EchoOp} (turn : e.InTurn op) (packet : op.Packet)
    (hs : e.step rbs rbc P Q op = some e') (countable : e'.Countable) : Coupled C D rbs rbc e' := by
  cases op with
  | connClient actor ops =>
    obtain ⟨up, hup, hs⟩ := Option.bind_eq_some_iff.mp hs
    obtain ⟨down, hdown, rfl⟩ := Option.map_eq_some_iff.mp hs
    exact c.connClient hu hd hu' hd' hup (Link.countable_cutOff countable.1) hdown
  | connServer actor ops =>
    obtain ⟨down, hdown, hs⟩ := Option.bind_eq_some_iff.mp hs
    obtain ⟨up, hup, rfl⟩ := Option.map_eq_some_iff.mp hs
    exact c.connServer hu hd hu' hd' hdown (Link.countable_cutOff countable.2) hup
  | client op =>
    simp only [Echo.step] at hs
    split at hs
    next => cases hs
    next hop =>
      obtain ⟨up, hup, rfl⟩ := Option.map_eq_some_iff.mp hs
      have hpacket : (LinkOp.send op).Packet := by
        cases op with
        | call t buf =>
          cases buf with
          | none => exact trivial
          | some buf => exact packet
        | _ => exact trivial
      exact c.client_step hu hd (Bool.eq_false_iff.mpr hop) turn hpacket hup countable.1 _
  | server op =>
    simp only [Echo.step] at hs
    split at hs
    next => cases hs
    next hop =>
      obtain ⟨down, hdown, rfl⟩ := Option.map_eq_some_iff.mp hs
      rw [Bool.or_eq_true, not_or] at hop
      exact c.server_step hu' hd' (Bool.eq_false_iff.mpr hop.1) (Bool.eq_false_iff.mpr hop.2) turn hdown
        countable.2 _
  | onRecv =>
    simp only [Echo.step] at hs
    split at hs
    next => cases hs
    next buf todo htodo =>
      obtain ⟨down, hdown, rfl⟩ := Option.map_eq_some_iff.mp hs
      exact c.onRecv hu' hd' htodo hdown countable.2
  | recvClient data calls =>
    obtain ⟨down, hdown, rfl⟩ := Option.map_eq_some_iff.mp hs
    exact c.clientSide hu' hd' (by intro ops he; cases he) (by intro ops he; cases he) hdown
  | recvServer data calls =>
    simp only [Echo.step] at hs
    split at hs
    next hguard =>
      obtain ⟨up, hup, rfl⟩ := Option.map_eq_some_iff.mp hs
      exact c.serverSide hu hd (by intro ops he; cases he) (by intro ops he; cases he) hup
        (by rw [hguard.1, List.nil_append]) (c.up.recv hu hd hup).2
    next => cases hs
  | lostClient err =>
    obtain ⟨down, hdown, rfl⟩ := Option.map_eq_some_iff.mp hs
    exact c.clientSide hu' hd' (by intro ops he; cases he) (by intro ops he; cases he) hdown
  | lostServer err =>
    obtain ⟨up, hup, rfl⟩ := Option.map_eq_some_iff.mp hs
    have hsame := (c.up.step hu hd hup trivial trivial (by intro op he; cases he)).2 (by exact fun _ _ => nofun)
    exact c.serverSide hu hd (by intro ops he; cases he) (by intro ops he; cases he) hup
      (by rw [hsame, List.drop_length, List.append_nil]) (by rw [hsame])
  | userClient op =>
    have hdown : e.down.step rbc Q (.user op) = some { e.down with receiver := e.down.receiver.user Q op } := rfl
    cases Option.some.inj hs
    exact c.clientSide hu' hd' (by intro ops he; cases he) (by intro ops he; cases he) hdown
  | userServer op =>
    have hup : e.up.step rbs P (.user op) = some { e.up with receiver := e.up.receiver.user P op } := rfl
    cases Option.some.inj hs
    have hsame := (c.up.step hu hd hup trivial trivial (by intro op he; cases he)).2 (by exact fun _ _ => nofun)
    exact c.serverSide hu hd (by intro ops he; cases he) (by intro ops he; cases he) hup
      (by rw [hsame, List.drop_length, List.append_nil]) (by rw [hsame])

/-- Nothing but calls of the users can happen any more. -/
def Settled (rbs rbc : Nat) (P : IMemPool σ) (Q : IMemPool τ) (e : Echo σ τ) : Prop :=
  ∀ op : EchoOp, op.Internal → e.step rbs rbc P Q op = none

theorem Settled.up (h : e.Settled rbs rbc P Q) {op : SendOp (List UInt8)} (hop : op.Internal) : e.up.send op = none := by
  have hconn : op.IsConn = false := by
    cases op with
    | conn actor => exact hop.elim
    | _ => rfl
  have hnone := h (.client op) hop
  rw [Echo.step, hconn, if_neg Bool.false_ne_true] at hnone
  exact Option.map_eq_none_iff.mp hnone

theorem Settled.down (h : e.Settled rbs rbc P Q) {op : SendOp (List UInt8)} (hop : op.Internal) :
    e.down.send op = none := by
  have hout : (op.IsConn || op.IsCall) = false := by
    cases op with
    | conn actor => exact hop.elim
    | call t buf => exact hop.elim
    | _ => rfl
  have hnone := h (.server op) hop
  rw [Echo.step, hout, if_neg Bool.false_ne_true] at hnone
  exact Option.map_eq_none_iff.mp hnone

/-- An idle server has nothing left to do. -/
theorem Settled.todo (h : e.Settled rbs rbc P Q) (hidle : e.down.sender.Idle) : e.todo = [] := by
  cases htodo : e.todo with
  | nil => rfl
  | cons buf todo =>
    have hnone := h .onRecv trivial
    rw [Echo.step, htodo] at hnone
    have hcall : e.down.send (.call 0 (some buf)) = none := Option.map_eq_none_iff.mp hnone
    have hsome : (e.down.sender.sizedStep (.call 0 (some buf))).isSome = true := by
      rw [Sender.sizedStep_isSome]
      simp only [Sender.step, hidle.1 0, Option.isSome_some]
    obtain ⟨s, hs⟩ := Option.isSome_iff_exists.mp hsome
    rw [Link.send_other (by intro t fail hop; cases hop), hs] at hcall
    cases hcall

/-- What comes back are the first of the packets that the client has sent. -/
theorem Coupled.returned (c : Coupled C D rbs rbc e) : e.down.delivered <+: e.up.sender.accepted := by
  obtain ⟨dropped, hall, _⟩ := c.echoed
  have hback : e.down.sender.accepted <+: e.up.delivered := by
    rw [← hall, List.append_assoc, List.append_assoc]
    exact List.prefix_append _ _
  exact (c.down.delivered.trans hback).trans c.up.delivered

theorem Coupled.settled (hu : C.Units32) (hu' : D.Units32) (c : Coupled C D rbs rbc e)
    (hset : e.Settled rbs rbc P Q) (hup : e.up.broken = false) (hdown : e.down.broken = false)
    (hclient : e.up.sender.isConnected = true) (hserver : e.down.sender.isConnected = true) :
    e.todo = [] ∧ e.down.delivered = e.up.sender.accepted := by
  have hidle := Link.idle_of_settled (fun op hop => hset.down hop) hdown
  have htodo := hset.todo hidle
  have hrecv : ∀ data, e.up.step rbs P (.recv data []) = none := by
    intro data
    have hnone := hset (.recvServer data []) rfl
    rw [Echo.step, if_pos ⟨htodo, hidle.1 0⟩] at hnone
    exact Option.map_eq_none_iff.mp hnone
  have hrecv' : ∀ data, e.down.step rbc Q (.recv data []) = none := by
    intro data
    have hnone := hset (.recvClient data []) rfl
    exact Option.map_eq_none_iff.mp hnone
  obtain ⟨_, hthere⟩ := c.up.settled hu ⟨fun op hop => hset.up hop, hrecv⟩ hup hclient (c.server.trans hserver)
  obtain ⟨_, hback⟩ := c.down.settled hu' ⟨fun op hop => hset.down hop, hrecv'⟩ hdown hserver (c.client.trans hclient)
  obtain ⟨dropped, hall, hnone⟩ := c.echoed
  have hentering : e.down.sender.entering = [] := by
    unfold Sender.entering
    rw [hidle.1 0]
  rw [hentering, hnone hserver, htodo] at hall
  simp only [List.append_nil] at hall
  exact ⟨htodo, by rw [hback, hall, hthere]⟩

end Echo

end Ven
