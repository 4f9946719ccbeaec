import Ven.UdpEcho

namespace Ven

namespace UdpEcho

variable {σ : Type} {P : IMemPool σ} {C : PoolContract P} {L : Ipv4.Codec} {here : SockaddrIn} {s s' : UdpEcho σ}

/-- A datagram is counted for one client on its way to the server and on its way back. -/
theorem round_passedAs {d : Datagram} (hinet : d.source.Inet) (hrouted : d.source = here ∨ d.dest = here) :
    (passedAs L here d.dest (d.data, Addr.ofSockaddr L d.source)).round here = d.round here := by
  unfold passedAs
  split
  next hdest =>
    unfold Datagram.round reply
    rw [if_pos rfl, hinet.eq]
    split
    next hsource => rw [hsource, hdest]
    next => rfl
  next hdest =>
    have hsource := hrouted.resolve_right hdest
    unfold Datagram.round
    rw [if_pos rfl, if_pos hsource]

theorem received_update {who : SockaddrIn} {x : ReceiverUDP σ SockaddrIn} {call : List UInt8 × Addr}
    (hcalls : x.calls = (s.endpoints who).calls ++ [call]) (r : SockaddrIn × List UInt8) :
    received { s with endpoints := Function.update s.endpoints who x } r =
      received s r + if (who, call.1) = r then 1 else 0 := by
  obtain ⟨a, data⟩ := r
  unfold received
  dsimp only
  by_cases hwho : a = who
  · subst hwho
    rw [Function.update_self, hcalls, List.countP_append, List.countP_singleton]
    simp
  · rw [Function.update_of_ne hwho]
    have hne : ¬(who, call.1) = (a, data) := fun h => hwho (congrArg Prod.fst h).symm
    rw [if_neg hne, Nat.add_zero]

theorem onRecv_leaves (L : Ipv4.Codec) (here : SockaddrIn) (s : UdpEcho σ) (who : SockaddrIn) (call : List UInt8 × Addr) (taken : Bool) :
    (onRecv L here s who call taken).endpoints = s.endpoints ∧ (onRecv L here s who call taken).sent = s.sent ∧
      (onRecv L here s who call taken).doubled = s.doubled ∧ (onRecv L here s who call taken).spurious = s.spurious := by
  unfold onRecv
  split
  next => exact ⟨rfl, rfl, rfl, rfl⟩
  next =>
    split
    next => exact ⟨rfl, rfl, rfl, rfl⟩
    next => exact ⟨rfl, rfl, rfl, rfl⟩

/-- What is on the wire behind `on_recv`: at most the reply of the server is new. -/
theorem mem_onRecv_wire {who : SockaddrIn} {call : List UInt8 × Addr} {taken : Bool} {d : Datagram}
    (hd : d ∈ (onRecv L here s who call taken).wire) : d ∈ s.wire ∨ (who = here ∧ d = reply L here call) := by
  unfold onRecv at hd
  split at hd
  next => exact Or.inl hd
  next hwho =>
    split at hd
    next =>
      rcases List.mem_append.mp hd with hold | hnew
      · exact Or.inl hold
      · exact Or.inr ⟨Classical.not_not.mp hwho, List.mem_singleton.mp hnew⟩
    next => exact Or.inl hd

theorem onRecv_tally (L : Ipv4.Codec) (here : SockaddrIn) (s : UdpEcho σ) (who : SockaddrIn) (call : List UInt8 × Addr) (taken : Bool)
    (r : SockaddrIn × List UInt8) :
    tally here (onRecv L here s who call taken).wire r + tally here (onRecv L here s who call taken).lost r =
      tally here s.wire r + tally here s.lost r + if who = here then tally here [reply L here call] r else 0 := by
  unfold onRecv
  split
  next => rfl
  next hwho =>
    rw [if_pos (Classical.not_not.mp hwho)]
    split
    next =>
      dsimp only
      rw [tally_append]
      omega
    next =>
      dsimp only
      rw [tally_append]
      omega

/-- A completion at `who` is given to `on_recv` whole, with the sender stored last. -/
theorem complete_spec (hu : C.Units32) {who : SockaddrIn} {c : Completion SockaddrIn}
    {uses : List UdpUse} {fail : Option Nat} {taken : Bool} {call : List UInt8 × Addr}
    (hd : ReceiverUDP.Drained C receiveBufferSize recvBufRemainingSizeToExchange (s.endpoints who))
    (hs : complete P L here s who c uses fail taken = some (s', call)) :
    call = (c.data, Addr.ofSockaddr L (c.sender.getD (s.endpoints who).clientAddr)) ∧
      ∃ r, ReceiverUDP.Turned C (Addr.ofSockaddr L) receiveBufferSize recvBufRemainingSizeToExchange (s.endpoints who) c r ∧
        s' = onRecv L here { s with endpoints := Function.update s.endpoints who r } who call taken := by
  unfold complete at hs
  split at hs
  next => cases hs
  next r hr =>
    have ht := hd.complete hu (by decide) hr
    rw [ht.calls, List.getLast?_concat] at hs
    cases Option.some.inj hs
    exact ⟨rfl, r, ht, rfl⟩

/-- What a completion makes of the rounds: one more is received, on its way back or lost. -/
theorem complete_tally (hu : C.Units32) {who : SockaddrIn} {c : Completion SockaddrIn}
    {uses : List UdpUse} {fail : Option Nat} {taken : Bool} {call : List UInt8 × Addr}
    (hd : ReceiverUDP.Drained C receiveBufferSize recvBufRemainingSizeToExchange (s.endpoints who))
    (hs : complete P L here s who c uses fail taken = some (s', call)) {r : SockaddrIn × List UInt8} (hr : r.1 ≠ here) :
    received s' r + tally here s'.wire r + tally here s'.lost r =
      received s r + tally here s.wire r + tally here s.lost r + tally here [passedAs L here who call] r := by
  obtain ⟨hcall, x, ht, rfl⟩ := complete_spec hu hd hs
  have hreceived := received_update (s := s) (by rw [ht.calls, ← hcall]) r
  have hends := (onRecv_leaves L here { s with endpoints := Function.update s.endpoints who x } who call taken).1
  have hwire := onRecv_tally L here { s with endpoints := Function.update s.endpoints who x } who call taken r
  have hrec : received (onRecv L here { s with endpoints := Function.update s.endpoints who x } who call taken) r =
      received { s with endpoints := Function.update s.endpoints who x } r := by
    unfold received
    rw [hends]
  rw [hrec, hreceived, tally_singleton]
  by_cases hwho : who = here
  · have hne : ¬(who, call.1) = r := fun h => hr (by rw [← h]; exact hwho)
    rw [if_pos hwho, tally_singleton] at hwire
    rw [if_neg hne, passedAs, if_pos hwho]
    dsimp only at hwire
    omega
  · rw [if_neg hwho] at hwire
    have hround : (passedAs L here who call).round here = (who, call.1) := by
      rw [passedAs, if_neg hwho, Datagram.round, if_pos rfl]
    rw [hround]
    dsimp only at hwire
    omega

/-- Every datagram of a client is somewhere: back at the client, on its way, or lost. -/
structure Accounted (C : PoolContract P) (here : SockaddrIn) (s : UdpEcho σ) : Prop where
  drained : ∀ who, ReceiverUDP.Drained C receiveBufferSize recvBufRemainingSizeToExchange (s.endpoints who)
  inet : ∀ d ∈ s.wire, d.source.Inet
  routed : ∀ d ∈ s.wire, d.source = here ∨ d.dest = here
  balance : ∀ r : SockaddrIn × List UInt8, r.1 ≠ here →
    received s r + tally here s.wire r + tally here s.lost r =
      tally here s.sent r + tally here s.doubled r + tally here s.spurious r

theorem drained_update {who : SockaddrIn} {x : ReceiverUDP σ SockaddrIn} {rbs rem : Nat}
    (hall : ∀ a, ReceiverUDP.Drained C rbs rem (s.endpoints a)) (hx : ReceiverUDP.Drained C rbs rem x) (a : SockaddrIn) :
    ReceiverUDP.Drained C rbs rem (Function.update s.endpoints who x a) := by
  by_cases ha : a = who
  · rw [ha, Function.update_self]
    exact hx
  · rw [Function.update_of_ne ha]
    exact hall a

/-- What a completion keeps, apart from the balance. -/
theorem complete_keeps (hu : C.Units32) (hinet : here.Inet) {who : SockaddrIn} {c : Completion SockaddrIn}
    {uses : List UdpUse} {fail : Option Nat} {taken : Bool} {call : List UInt8 × Addr}
    (hd : ∀ a, ReceiverUDP.Drained C receiveBufferSize recvBufRemainingSizeToExchange (s.endpoints a))
    (hs : complete P L here s who c uses fail taken = some (s', call)) :
    (∀ a, ReceiverUDP.Drained C receiveBufferSize recvBufRemainingSizeToExchange (s'.endpoints a)) ∧
      (∀ d ∈ s'.wire, d ∈ s.wire ∨ d.source = here ∧ d.source.Inet) ∧
      s'.sent = s.sent ∧ s'.doubled = s.doubled ∧ s'.spurious = s.spurious := by
  obtain ⟨_, x, ht, rfl⟩ := complete_spec hu (hd who) hs
  obtain ⟨hends, hsent, hdoubled, hspurious⟩ :=
    onRecv_leaves L here { s with endpoints := Function.update s.endpoints who x } who call taken
  refine ⟨fun a => ?_, fun d hin => ?_, hsent, hdoubled, hspurious⟩
  · rw [hends]
    exact drained_update hd ht.drained a
  · refine (mem_onRecv_wire hin).imp id fun h => ?_
    rw [h.2]
    exact ⟨rfl, hinet⟩

/-- A completion keeps the account when what it passes to `on_recv` makes up for what it takes from the wire. -/
theorem Accounted.completed (hu : C.Units32) (hinet : here.Inet) (h : Accounted C here s) {w t : UdpEcho σ}
    (hends : w.endpoints = s.endpoints) (hin : ∀ d ∈ w.wire, d ∈ s.wire)
    (hsame : w.sent = s.sent ∧ w.doubled = s.doubled ∧ w.spurious = s.spurious) {who : SockaddrIn}
    {c : Completion SockaddrIn} {uses : List UdpUse} {fail : Option Nat} {taken : Bool} {call : List UInt8 × Addr}
    (hc : complete P L here w who c uses fail taken = some (t, call)) {extra : List Datagram}
    (hpaid : ∀ r, tally here w.wire r + tally here w.lost r + tally here [passedAs L here who call] r =
      tally here s.wire r + tally here s.lost r + tally here extra r) :
    Accounted C here { t with spurious := t.spurious ++ extra } := by
  have hdrained : ∀ a, ReceiverUDP.Drained C receiveBufferSize recvBufRemainingSizeToExchange (w.endpoints a) := by
    rw [hends]
    exact h.drained
  obtain ⟨hafter, hwire, hsent, hdoubled, hspurious⟩ := complete_keeps hu hinet hdrained hc
  refine ⟨hafter, fun x hx => ?_, fun x hx => ?_, fun r hr => ?_⟩
  · exact (hwire x hx).elim (fun hold => h.inet x (hin x hold)) And.right
  · exact (hwire x hx).elim (fun hold => h.routed x (hin x hold)) fun hnew => Or.inl hnew.1
  · have hb := h.balance r hr
    have ht := complete_tally hu (hdrained who) hc hr
    have hp := hpaid r
    have hrec : received w r = received s r := by
      unfold received
      rw [hends]
    rw [hrec] at ht
    change received t r + tally here t.wire r + tally here t.lost r =
      tally here t.sent r + tally here t.doubled r + tally here (t.spurious ++ extra) r
    rw [hsent, hdoubled, hspurious, hsame.1, hsame.2.1, hsame.2.2, tally_append]
    omega

theorem Accounted.send (h : Accounted C here s) {client : SockaddrIn} {data : List UInt8}
    (hs : UdpEcho.step P L here s (.send client data) = some s') : Accounted C here s' := by
  simp only [UdpEcho.step] at hs
  split at hs
  next => cases hs
  next hok =>
    obtain ⟨hne, hclient⟩ := not_or.mp hok
    cases Option.some.inj hs
    refine ⟨h.drained, fun d hin => ?_, fun d hin => ?_, fun r hr => ?_⟩
    · rcases List.mem_append.mp hin with hold | hnew
      · exact h.inet d hold
      · rw [List.mem_singleton.mp hnew]
        exact Classical.not_not.mp hclient
    · rcases List.mem_append.mp hin with hold | hnew
      · exact h.routed d hold
      · rw [List.mem_singleton.mp hnew]
        exact Or.inr rfl
    · have hb := h.balance r hr
      change received s r + tally here (s.wire ++ [_]) r + tally here s.lost r =
        tally here (s.sent ++ [_]) r + tally here s.doubled r + tally here s.spurious r
      rw [tally_append, tally_append]
      omega

theorem Accounted.deliver (hu : C.Units32) (hinet : here.Inet) (h : Accounted C here s) {i : Nat}
    {uses : List UdpUse} {fail : Option Nat} {taken : Bool}
    (hs : UdpEcho.step P L here s (.deliver i uses fail taken) = some s') : Accounted C here s' := by
  simp only [UdpEcho.step] at hs
  split at hs
  next => cases hs
  next d hd =>
    obtain ⟨⟨t, call⟩, hc, rfl⟩ := Option.map_eq_some_iff.mp hs
    have hin := List.mem_of_getElem? hd
    obtain ⟨hcall, _⟩ := complete_spec (s := { s with wire := s.wire.eraseIdx i }) hu (h.drained d.dest) hc
    have hround := round_passedAs (L := L) (h.inet d hin) (h.routed d hin)
    have hpaid : ∀ r, tally here (s.wire.eraseIdx i) r + tally here s.lost r +
        tally here [passedAs L here d.dest call] r = tally here s.wire r + tally here s.lost r + tally here [] r := by
      intro r
      have hone : tally here [passedAs L here d.dest call] r = tally here [d] r := by
        rw [tally_singleton, tally_singleton, hcall]
        exact congrArg (fun x => if x = r then 1 else 0) hround
      have herase := tally_eraseIdx here hd r
      have hnone : tally here [] r = 0 := rfl
      rw [hone, hnone]
      omega
    have hdone := h.completed (w := { s with wire := s.wire.eraseIdx i }) hu hinet rfl
      (fun x hx => List.mem_of_mem_eraseIdx hx) ⟨rfl, rfl, rfl⟩ hc hpaid
    rwa [List.append_nil] at hdone

/-- A datagram that is too long is lost, and its first bytes pass for another. -/
theorem Accounted.truncate (hu : C.Units32) (hinet : here.Inet) (h : Accounted C here s) {i : Nat}
    {uses : List UdpUse} {fail : Option Nat} {taken : Bool}
    (hs : UdpEcho.step P L here s (.truncate i uses fail taken) = some s') : Accounted C here s' := by
  simp only [UdpEcho.step] at hs
  split at hs
  next => cases hs
  next d hd =>
    split at hs
    next => cases hs
    next =>
      obtain ⟨⟨t, call⟩, hc, rfl⟩ := Option.map_eq_some_iff.mp hs
      refine h.completed (w := { s with wire := s.wire.eraseIdx i, lost := s.lost ++ [d] }) hu hinet rfl
        (fun x hx => List.mem_of_mem_eraseIdx hx) ⟨rfl, rfl, rfl⟩ hc fun r => ?_
      have herase := tally_eraseIdx here hd r
      dsimp only
      rw [tally_append]
      omega

theorem Accounted.use (h : Accounted C here s) {who : SockaddrIn} {u : UdpUse}
    (hs : UdpEcho.step P L here s (.use who u) = some s') : Accounted C here s' := by
  simp only [UdpEcho.step] at hs
  split at hs
  next => cases hs
  next x hx =>
    cases Option.some.inj hs
    simp only [ReceiverUDP.step] at hx
    split at hx
    next => cases hx
    next hcall =>
      cases Option.some.inj hx
      obtain ⟨_, hb⟩ := (h.drained who).steady.use u
      have hdrained := (h.drained who).use (Bool.eq_false_of_not_eq_true hcall)
      refine ⟨drained_update h.drained hdrained, h.inet, h.routed, fun r hr => ?_⟩
      rw [← h.balance r hr]
      have hsame : received { s with endpoints := Function.update s.endpoints who ((s.endpoints who).use P u) } r =
          received s r := by
        unfold received
        dsimp only
        by_cases ha : r.1 = who
        · rw [ha, Function.update_self, hb.calls]
        · rw [Function.update_of_ne ha]
      rw [hsame]

theorem Accounted.lose (h : Accounted C here s) {i : Nat} (hs : UdpEcho.step P L here s (.lose i) = some s') :
    Accounted C here s' := by
  simp only [UdpEcho.step] at hs
  split at hs
  next => cases hs
  next d hd =>
    cases Option.some.inj hs
    refine ⟨h.drained, fun x hx => h.inet x (List.mem_of_mem_eraseIdx hx),
      fun x hx => h.routed x (List.mem_of_mem_eraseIdx hx), fun r hr => ?_⟩
    have hb := h.balance r hr
    have herase := tally_eraseIdx here hd r
    change received s r + tally here (s.wire.eraseIdx i) r + tally here (s.lost ++ [d]) r =
      tally here s.sent r + tally here s.doubled r + tally here s.spurious r
    rw [tally_append]
    omega

theorem Accounted.double (h : Accounted C here s) {i : Nat} (hs : UdpEcho.step P L here s (.double i) = some s') :
    Accounted C here s' := by
  simp only [UdpEcho.step] at hs
  split at hs
  next => cases hs
  next d hd =>
    cases Option.some.inj hs
    have hin := List.mem_of_getElem? hd
    refine ⟨h.drained, fun x hx => ?_, fun x hx => ?_, fun r hr => ?_⟩
    · rcases List.mem_append.mp hx with hold | hnew
      · exact h.inet x hold
      · exact h.inet x (List.mem_singleton.mp hnew ▸ hin)
    · rcases List.mem_append.mp hx with hold | hnew
      · exact h.routed x hold
      · exact h.routed x (List.mem_singleton.mp hnew ▸ hin)
    · have hb := h.balance r hr
      change received s r + tally here (s.wire ++ [d]) r + tally here s.lost r =
        tally here s.sent r + tally here (s.doubled ++ [d]) r + tally here s.spurious r
      rw [tally_append, tally_append]
      omega

theorem Accounted.step (hu : C.Units32) (hinet : here.Inet) (h : Accounted C here s) {op : Op}
    (hs : UdpEcho.step P L here s op = some s') : Accounted C here s' := by
  cases op with
  | send client data => exact h.send hs
  | deliver i uses fail taken => exact h.deliver hu hinet hs
  | truncate i uses fail taken => exact h.truncate hu hinet hs
  | failed who err data sender uses fail taken =>
    obtain ⟨⟨t, call⟩, hc, rfl⟩ := Option.map_eq_some_iff.mp hs
    exact h.completed hu hinet rfl (fun x hx => hx) ⟨rfl, rfl, rfl⟩ hc fun r => rfl
  | use who u => exact h.use hs
  | lose i => exact h.lose hs
  | double i => exact h.double hs

theorem start_accounted (hu : C.Units32) {process : SockaddrIn → UdpProcess σ}
    (hinit : ∀ who, C.Inv (process who).ram (heldBy (process who).bufs + ((process who).dettached : Multiset Nat))) :
    Accounted C here (start P process) where
  drained who := (ReceiverUDP.init_spec hu (by decide) _ (hinit who) _ none).1
  inet := nofun
  routed := nofun
  balance r _ := by
    have hcalls : ((start P process).endpoints r.1).calls = [] :=
      (ReceiverUDP.init_spec hu (by decide) _ (hinit r.1) _ none).2.2.1
    unfold received
    rw [hcalls]
    rfl

/-- Whatever the network does to the datagrams between an echo server and its clients, each that a client sent is
back in its `on_recv`, on its way or lost, and no client gets a datagram that it did not send itself, but for what
was doubled and for receives that failed. -/
theorem rounds_accounted (C : PoolContract P) (hu : C.Units32) (L : Ipv4.Codec) (echo : Addr) {process : SockaddrIn → UdpProcess σ}
    (hinit : ∀ who, C.Inv (process who).ram (heldBy (process who).bufs + ((process who).dettached : Multiset Nat)))
    {ops : List Op} (run : Machine.exec (step P L (echo.sockaddr L)) (start P process) ops = some s) {client : SockaddrIn}
    (hclient : client ≠ echo.sockaddr L) (data : List UInt8) :
    received s (client, data) + tally (echo.sockaddr L) s.wire (client, data) + tally (echo.sockaddr L) s.lost (client, data) =
      tally (echo.sockaddr L) s.sent (client, data) + tally (echo.sockaddr L) s.doubled (client, data) +
        tally (echo.sockaddr L) s.spurious (client, data) := by
  have h : Accounted C (echo.sockaddr L) s :=
    Machine.exec_invariant (fun _ _ _ h hs => h.step hu (echo.inet_sockaddr L) hs) (start_accounted hu hinit) run
  exact h.balance (client, data) hclient

/-- Two clients; the first datagram comes back twice, the second is lost on its way. -/
theorem rounds_accounted_sample :
    ∃ s, Machine.exec (step memPool Ipv4.dotted ((Addr.ofText [49, 46, 50, 46, 51, 46, 52] 80).sockaddr Ipv4.dotted))
      (start memPool fun _ => ⟨MemPool.init ⟨[8192], fun _ => ⟨1, 1⟩, by decide⟩, [], [], ⟨0, 0, .any, 0⟩⟩)
      [.send ⟨2, 256, ⟨1, 2, 3, 5⟩, 0⟩ [7], .send ⟨2, 256, ⟨1, 2, 3, 6⟩, 0⟩ [8], .deliver 0 [] none true, .lose 0,
        .double 0, .deliver 0 [] none true, .deliver 0 [] none true] = some s ∧
      received s (⟨2, 256, ⟨1, 2, 3, 5⟩, 0⟩, [7]) = 2 ∧
      received s (⟨2, 256, ⟨1, 2, 3, 5⟩, 0⟩, [7]) +
          tally ((Addr.ofText [49, 46, 50, 46, 51, 46, 52] 80).sockaddr Ipv4.dotted) s.wire (⟨2, 256, ⟨1, 2, 3, 5⟩, 0⟩, [7]) +
          tally ((Addr.ofText [49, 46, 50, 46, 51, 46, 52] 80).sockaddr Ipv4.dotted) s.lost (⟨2, 256, ⟨1, 2, 3, 5⟩, 0⟩, [7]) =
        tally ((Addr.ofText [49, 46, 50, 46, 51, 46, 52] 80).sockaddr Ipv4.dotted) s.sent (⟨2, 256, ⟨1, 2, 3, 5⟩, 0⟩, [7]) +
          tally ((Addr.ofText [49, 46, 50, 46, 51, 46, 52] 80).sockaddr Ipv4.dotted) s.doubled (⟨2, 256, ⟨1, 2, 3, 5⟩, 0⟩, [7]) +
          tally ((Addr.ofText [49, 46, 50, 46, 51, 46, 52] 80).sockaddr Ipv4.dotted) s.spurious (⟨2, 256, ⟨1, 2, 3, 5⟩, 0⟩, [7]) := by
  have run : ∃ s, Machine.exec (step memPool Ipv4.dotted ((Addr.ofText [49, 46, 50, 46, 51, 46, 52] 80).sockaddr Ipv4.dotted))
      (start memPool fun _ => ⟨MemPool.init ⟨[8192], fun _ => ⟨1, 1⟩, by decide⟩, [], [], ⟨0, 0, .any, 0⟩⟩)
      [.send ⟨2, 256, ⟨1, 2, 3, 5⟩, 0⟩ [7], .send ⟨2, 256, ⟨1, 2, 3, 6⟩, 0⟩ [8], .deliver 0 [] none true, .lose 0,
        .double 0, .deliver 0 [] none true, .deliver 0 [] none true] = some s ∧
      received s (⟨2, 256, ⟨1, 2, 3, 5⟩, 0⟩, [7]) = 2 := ⟨_, rfl, rfl⟩
  obtain ⟨s, run, htwice⟩ := run
  have hinit : (memPool_contract (MemPool.configured ⟨[8192], fun _ => ⟨1, 1⟩, by decide⟩) fun _ => none).Inv
      (MemPool.init ⟨[8192], fun _ => ⟨1, 1⟩, by decide⟩) (heldBy [] + (([] : List Nat) : Multiset Nat)) :=
    MemPool.inv_init (by decide)
  exact ⟨s, run, htwice, rounds_accounted
    (memPool_contract (MemPool.configured ⟨[8192], fun _ => ⟨1, 1⟩, by decide⟩) fun _ => none)
    (memPool_units32 (by decide) _) _ _ (by exact fun _ => hinit) run (by decide) [7]⟩

/-- A session changes by its own steps only. -/
theorem step_endpoints {op : Op} (hs : step P L here s op = some s') (who : SockaddrIn) :
    s'.endpoints who = s.endpoints who ∨
      ∃ o, (s.endpoints who).step P (Addr.ofSockaddr L) o = some (s'.endpoints who) := by
  have updated : ∀ {a x o}, (s.endpoints a).step P (Addr.ofSockaddr L) o = some x →
      Function.update s.endpoints a x who = s.endpoints who ∨
        ∃ o, (s.endpoints who).step P (Addr.ofSockaddr L) o = some (Function.update s.endpoints a x who) := by
    intro a x o hx
    by_cases ha : who = a
    · subst ha
      rw [Function.update_self]
      exact Or.inr ⟨o, hx⟩
    · exact Or.inl (Function.update_of_ne ha _ _)
  have completed : ∀ {t t' : UdpEcho σ} {a c uses fail taken call}, t.endpoints = s.endpoints →
      complete P L here t a c uses fail taken = some (t', call) →
      t'.endpoints who = s.endpoints who ∨
        ∃ o, (s.endpoints who).step P (Addr.ofSockaddr L) o = some (t'.endpoints who) := by
    intro t t' a c uses fail taken call hsame hc
    unfold complete at hc
    rw [hsame] at hc
    split at hc
    next => cases hc
    next x hx =>
      split at hc
      next => cases hc
      next call' _ =>
        cases Option.some.inj hc
        rw [(onRecv_leaves L here { t with endpoints := Function.update s.endpoints a x } a call taken).1]
        exact updated hx
  cases op with
  | send client data =>
    simp only [step] at hs
    split at hs
    next => cases hs
    next =>
      cases Option.some.inj hs
      exact Or.inl rfl
  | deliver i uses fail taken =>
    simp only [step] at hs
    split at hs
    next => cases hs
    next d hd =>
      obtain ⟨⟨t, call⟩, hc, rfl⟩ := Option.map_eq_some_iff.mp hs
      have hsame : ({ s with wire := s.wire.eraseIdx i } : UdpEcho σ).endpoints = s.endpoints := rfl
      exact completed hsame hc
  | truncate i uses fail taken =>
    simp only [step] at hs
    split at hs
    next => cases hs
    next d hd =>
      split at hs
      next => cases hs
      next =>
        obtain ⟨⟨t, call⟩, hc, rfl⟩ := Option.map_eq_some_iff.mp hs
        have hsame : ({ s with wire := s.wire.eraseIdx i, lost := s.lost ++ [d] } : UdpEcho σ).endpoints = s.endpoints := rfl
        have hdone := completed hsame hc
        exact hdone
  | failed a err data sender uses fail taken =>
    simp only [step] at hs
    obtain ⟨⟨t, call⟩, hc, rfl⟩ := Option.map_eq_some_iff.mp hs
    have hdone := completed rfl hc
    exact hdone
  | use a u =>
    simp only [step] at hs
    split at hs
    next => cases hs
    next x hx =>
      cases Option.some.inj hs
      exact updated hx
  | lose i =>
    simp only [step] at hs
    split at hs
    next => cases hs
    next =>
      cases Option.some.inj hs
      exact Or.inl rfl
  | double i =>
    simp only [step] at hs
    split at hs
    next => cases hs
    next =>
      cases Option.some.inj hs
      exact Or.inl rfl

/-- What every step of a session keeps, every step of the whole keeps. -/
theorem endpoints_invariant {I : ReceiverUDP σ SockaddrIn → Prop}
    (keep : ∀ x o y, I x → x.step P (Addr.ofSockaddr L) o = some y → I y) {op : Op} (h : ∀ who, I (s.endpoints who))
    (hs : step P L here s op = some s') (who : SockaddrIn) : I (s'.endpoints who) := by
  rcases step_endpoints hs who with hsame | ⟨o, ho⟩
  · rw [hsame]
    exact h who
  · exact keep _ o _ (h who) ho

/-- A completion behind which the next receive is posted. -/
theorem isReceiving_complete {x y : ReceiverUDP σ SockaddrIn} {c : Completion SockaddrIn} {uses : List UdpUse}
    (hs : x.step P (Addr.ofSockaddr L) (.complete c uses none) = some y) : y.isReceiving = true := by
  simp only [ReceiverUDP.step] at hs
  split at hs
  next => cases hs
  next =>
    cases Option.some.inj hs
    rfl

/-- A datagram that finds a receive posted and room for it is handed over. -/
theorem complete_delivers (L : Ipv4.Codec) (here : SockaddrIn) (hu : C.Units32) {who : SockaddrIn} {data : List UInt8}
    (hw : ReceiverUDP.Windows C receiveBufferSize recvBufRemainingSizeToExchange (s.endpoints who))
    (hr : (s.endpoints who).isReceiving = true) (hdata : data.length ≤ recvBufRemainingSizeToExchange)
    (sender : SockaddrIn) :
    ∃ x, (s.endpoints who).step P (Addr.ofSockaddr L) (.complete (.datagram data sender) [] none) = some x ∧
      complete P L here s who (.datagram data sender) [] none true =
        some (onRecv L here { s with endpoints := Function.update s.endpoints who x } who
          (data, Addr.ofSockaddr L sender) true, (data, Addr.ofSockaddr L sender)) := by
  have hsome : ∃ x, (s.endpoints who).step P (Addr.ofSockaddr L) (.complete (.datagram data sender) [] none) = some x := by
    refine ⟨_, if_neg ?_⟩
    rintro (hoff | hshort | ⟨hfailed, _⟩)
    · exact hoff hr
    · have hroom := hw.room
      change (s.endpoints who).rbuf.remainLen (s.endpoints who).ram < data.length at hshort
      omega
    · cases hfailed
  obtain ⟨x, hx⟩ := hsome
  have ht := hw.drained.complete hu (by decide) hx
  refine ⟨x, hx, ?_⟩
  unfold complete
  rw [ite_self, hx]
  dsimp only
  rw [ht.calls, List.getLast?_concat]
  rfl

/-- How many datagrams are still to be handed over. -/
def journeys (here : SockaddrIn) : List Datagram → Nat
  | [] => 0
  | d :: ds => (if d.source = here then 1 else 2) + journeys here ds

theorem journeys_append (ds ds' : List Datagram) : journeys here (ds ++ ds') = journeys here ds + journeys here ds' := by
  induction ds with
  | nil => exact (Nat.zero_add _).symm
  | cons d ds ih =>
    rw [List.cons_append, journeys, journeys, ih]
    omega

/-- Every session waits for a datagram and has room for one, and the server has not written to itself. -/
structure Waiting (C : PoolContract P) (here : SockaddrIn) (s : UdpEcho σ) : Prop where
  accounted : Accounted C here s
  windows : ∀ who, ReceiverUDP.Windows C receiveBufferSize recvBufRemainingSizeToExchange (s.endpoints who)
  receiving : ∀ who, (s.endpoints who).isReceiving = true
  short : ∀ d ∈ s.wire, d.data.length ≤ recvBufRemainingSizeToExchange
  away : ∀ d ∈ s.wire, d.source = here → d.dest ≠ here

section

variable (hu : C.Units32)
  (hlarge : ∀ r H size, C.Inv r H → size < 4294967296 → recvBufRemainingSizeToExchange < (P.get r size).1.len)
  (hinet : here.Inet)

include hu hlarge hinet

/-- The first datagram on the wire is handed over, and comes one journey closer to its client. -/
theorem Waiting.deliver (h : Waiting C here s) {d : Datagram} {ds : List Datagram} (hwire : s.wire = d :: ds) :
    ∃ t, UdpEcho.step P L here s (.deliver 0 [] none true) = some t ∧ Waiting C here t ∧
      journeys here t.wire < journeys here s.wire ∧
      t.sent = s.sent ∧ t.lost = s.lost ∧ t.doubled = s.doubled ∧ t.spurious = s.spurious := by
  have hin : d ∈ s.wire := by
    rw [hwire]
    exact List.mem_cons_self
  have hrest : ∀ x ∈ ds, x ∈ s.wire := fun x hx => by
    rw [hwire]
    exact List.mem_cons_of_mem d hx
  obtain ⟨x, hx, hc⟩ := complete_delivers (s := { s with wire := ds }) L here hu (h.windows d.dest)
    (h.receiving d.dest) (h.short d hin) d.source
  generalize ht : onRecv L here { s with wire := ds, endpoints := Function.update s.endpoints d.dest x } d.dest
    (d.data, Addr.ofSockaddr L d.source) true = t at hc
  have hs : UdpEcho.step P L here s (.deliver 0 [] none true) = some t := by
    simp only [UdpEcho.step, hwire, List.getElem?_cons_zero, List.eraseIdx_cons_zero, hc, Option.map_some]
  obtain ⟨hends, hsent, hdoubled, hspurious⟩ := onRecv_leaves L here
    { s with wire := ds, endpoints := Function.update s.endpoints d.dest x } d.dest (d.data, Addr.ofSockaddr L d.source) true
  rw [ht] at hends hsent hdoubled hspurious
  have hnew : ∀ y ∈ t.wire, y ∈ ds ∨ d.dest = here ∧ y = ⟨here, d.source, d.data⟩ := by
    intro y hy
    rw [← ht] at hy
    refine (mem_onRecv_wire hy).imp id fun hreply => ⟨hreply.1, ?_⟩
    rw [hreply.2, reply, (h.accounted.inet d hin).eq]
  have hsource : d.dest = here → d.source ≠ here := fun hdest hself => h.away d hin hself hdest
  refine ⟨t, hs, ⟨h.accounted.step hu hinet hs, ?_, fun who => ?_, fun y hy => ?_, fun y hy => ?_⟩, ?_,
    hsent, ?_, hdoubled, hspurious⟩
  · exact endpoints_invariant (fun y o z hy ho => ReceiverUDP.Windows.step hu (by decide) hlarge hy ho) h.windows hs
  · rw [hends]
    dsimp only
    by_cases hwho : who = d.dest
    · rw [hwho, Function.update_self]
      exact isReceiving_complete hx
    · rw [Function.update_of_ne hwho]
      exact h.receiving who
  · rcases hnew y hy with hold | ⟨_, rfl⟩
    · exact h.short y (hrest y hold)
    · exact h.short d hin
  · rcases hnew y hy with hold | ⟨hdest, rfl⟩
    · exact h.away y (hrest y hold)
    · exact fun _ => hsource hdest
  · rw [← ht, hwire, journeys]
    unfold onRecv
    by_cases hdest : d.dest = here
    · rw [if_neg (Classical.not_not.mpr hdest), if_pos rfl, if_neg (hsource hdest), journeys_append]
      simp only [reply, journeys, if_true]
      omega
    · rw [if_pos hdest, if_pos ((h.accounted.routed d hin).resolve_right hdest)]
      exact Nat.lt_add_of_pos_left Nat.one_pos
  · rw [← ht]
    unfold onRecv
    split
    next => rfl
    next => rfl

/-- By induction on the journeys left, deliveries alone empty the wire. -/
theorem Waiting.settles (h : Waiting C here s) :
    ∃ n t, Machine.exec (UdpEcho.step P L here) s (List.replicate n (.deliver 0 [] none true)) = some t ∧ t.wire = [] ∧
      Accounted C here t ∧ t.sent = s.sent ∧ t.lost = s.lost ∧ t.doubled = s.doubled ∧ t.spurious = s.spurious := by
  generalize hn : journeys here s.wire = n
  induction n using Nat.strong_induction_on generalizing s with
  | _ n ih =>
    cases hwire : s.wire with
    | nil => exact ⟨0, s, rfl, hwire, h.accounted, rfl, rfl, rfl, rfl⟩
    | cons d ds =>
      obtain ⟨t, hs, hw, hless, hsent, hlost, hdoubled, hspurious⟩ := h.deliver hu hlarge hinet hwire
      obtain ⟨m, u, run, hempty, ha, hsent', hlost', hdoubled', hspurious'⟩ := ih _ (hn ▸ hless) hw rfl
      refine ⟨m + 1, u, ?_, hempty, ha, hsent'.trans hsent, hlost'.trans hlost, hdoubled'.trans hdoubled,
        hspurious'.trans hspurious⟩
      rw [List.replicate_succ, Machine.exec, hs]
      exact run

end

theorem start_windows (hu : C.Units32)
    (hlarge : ∀ r H size, C.Inv r H → size < 4294967296 → recvBufRemainingSizeToExchange < (P.get r size).1.len)
    {process : SockaddrIn → UdpProcess σ}
    (hinit : ∀ who, C.Inv (process who).ram (heldBy (process who).bufs + ((process who).dettached : Multiset Nat)))
    (who : SockaddrIn) :
    ReceiverUDP.Windows C receiveBufferSize recvBufRemainingSizeToExchange ((start P process).endpoints who) := by
  have hsize : receiveBufferSize < 4294967296 := by decide
  obtain ⟨hd, _, _, hposts, hroom⟩ :=
    ReceiverUDP.init_spec hu hsize recvBufRemainingSizeToExchange (hinit who) (process who).clientAddr none
  have hlen := hlarge _ _ receiveBufferSize (hinit who) hsize
  rw [← hroom] at hlen
  exact ReceiverUDP.Windows.post (s := { (start P process).endpoints who with posts := [] }) hd hlen nofun hposts

/-- Every reached state with the receives posted can be run on by deliveries alone until each datagram of a client
that was not lost is back in its `on_recv`. -/
theorem echoes_come_home (C : PoolContract P) (hu : C.Units32)
    (hlarge : ∀ r H size, C.Inv r H → size < 4294967296 → recvBufRemainingSizeToExchange < (P.get r size).1.len)
    (L : Ipv4.Codec) (echo : Addr) {process : SockaddrIn → UdpProcess σ}
    (hinit : ∀ who, C.Inv (process who).ram (heldBy (process who).bufs + ((process who).dettached : Multiset Nat)))
    {ops : List Op} (run : Machine.exec (step P L (echo.sockaddr L)) (start P process) ops = some s)
    (hreceiving : ∀ who, (s.endpoints who).isReceiving = true)
    (hwire : ∀ d ∈ s.wire, d.data.length ≤ recvBufRemainingSizeToExchange ∧
      (d.source = echo.sockaddr L → d.dest ≠ echo.sockaddr L)) :
    ∃ n t, Machine.exec (step P L (echo.sockaddr L)) s (List.replicate n (.deliver 0 [] none true)) = some t ∧ t.wire = [] ∧
      ∀ client data, client ≠ echo.sockaddr L →
        received t (client, data) + tally (echo.sockaddr L) s.lost (client, data) =
          tally (echo.sockaddr L) s.sent (client, data) + tally (echo.sockaddr L) s.doubled (client, data) +
            tally (echo.sockaddr L) s.spurious (client, data) := by
  have haccounted : Accounted C (echo.sockaddr L) s :=
    Machine.exec_invariant (fun _ _ _ h hs => h.step hu (echo.inet_sockaddr L) hs) (start_accounted hu hinit) run
  have hwindows : ∀ who, ReceiverUDP.Windows C receiveBufferSize recvBufRemainingSizeToExchange (s.endpoints who) :=
    Machine.exec_invariant (fun _ _ _ h hs => endpoints_invariant
      (fun y o z hy ho => ReceiverUDP.Windows.step hu (by decide) hlarge hy ho) h hs) (start_windows hu hlarge hinit) run
  have hw : Waiting C (echo.sockaddr L) s :=
    ⟨haccounted, hwindows, hreceiving, fun d hd => (hwire d hd).1, fun d hd => (hwire d hd).2⟩
  obtain ⟨n, t, hrun, hempty, ha, hsent, hlost, hdoubled, hspurious⟩ := hw.settles hu hlarge (echo.inet_sockaddr L)
  refine ⟨n, t, hrun, hempty, fun client data hclient => ?_⟩
  have hb := ha.balance (client, data) hclient
  rw [hempty, hsent, hlost, hdoubled, hspurious] at hb
  exact hb

/-- Both datagrams are still on their way, the first of them twice. -/
theorem echoes_come_home_sample :
    ∃ s, Machine.exec (step memPool Ipv4.dotted ((Addr.ofText [49, 46, 50, 46, 51, 46, 52] 80).sockaddr Ipv4.dotted))
      (start memPool fun _ => ⟨MemPool.init ⟨[8192], fun _ => ⟨1, 1⟩, by decide⟩, [], [], ⟨0, 0, .any, 0⟩⟩)
      [.send ⟨2, 256, ⟨1, 2, 3, 5⟩, 0⟩ [7], .send ⟨2, 256, ⟨1, 2, 3, 6⟩, 0⟩ [8], .double 0] = some s ∧
      ∃ n t, Machine.exec (step memPool Ipv4.dotted ((Addr.ofText [49, 46, 50, 46, 51, 46, 52] 80).sockaddr Ipv4.dotted)) s
          (List.replicate n (.deliver 0 [] none true)) = some t ∧
        t.wire = [] ∧ received t (⟨2, 256, ⟨1, 2, 3, 5⟩, 0⟩, [7]) = 2 := by
  have run : ∃ s, Machine.exec (step memPool Ipv4.dotted ((Addr.ofText [49, 46, 50, 46, 51, 46, 52] 80).sockaddr Ipv4.dotted))
      (start memPool fun _ => ⟨MemPool.init ⟨[8192], fun _ => ⟨1, 1⟩, by decide⟩, [], [], ⟨0, 0, .any, 0⟩⟩)
      [.send ⟨2, 256, ⟨1, 2, 3, 5⟩, 0⟩ [7], .send ⟨2, 256, ⟨1, 2, 3, 6⟩, 0⟩ [8], .double 0] = some s ∧
      s.endpoints = (start memPool fun _ => ⟨MemPool.init ⟨[8192], fun _ => ⟨1, 1⟩, by decide⟩, [], [],
        ⟨0, 0, .any, 0⟩⟩).endpoints ∧
      (∀ d ∈ s.wire, d.data.length ≤ recvBufRemainingSizeToExchange ∧
        (d.source = (Addr.ofText [49, 46, 50, 46, 51, 46, 52] 80).sockaddr Ipv4.dotted →
          d.dest ≠ ((Addr.ofText [49, 46, 50, 46, 51, 46, 52] 80).sockaddr Ipv4.dotted))) ∧
      tally ((Addr.ofText [49, 46, 50, 46, 51, 46, 52] 80).sockaddr Ipv4.dotted) s.lost (⟨2, 256, ⟨1, 2, 3, 5⟩, 0⟩, [7]) = 0 ∧
      tally ((Addr.ofText [49, 46, 50, 46, 51, 46, 52] 80).sockaddr Ipv4.dotted) s.sent (⟨2, 256, ⟨1, 2, 3, 5⟩, 0⟩, [7]) = 1 ∧
      tally ((Addr.ofText [49, 46, 50, 46, 51, 46, 52] 80).sockaddr Ipv4.dotted) s.doubled (⟨2, 256, ⟨1, 2, 3, 5⟩, 0⟩, [7]) = 1 ∧
      tally ((Addr.ofText [49, 46, 50, 46, 51, 46, 52] 80).sockaddr Ipv4.dotted) s.spurious (⟨2, 256, ⟨1, 2, 3, 5⟩, 0⟩, [7]) = 0 :=
    ⟨_, rfl, rfl, by decide, rfl, rfl, rfl, rfl⟩
  obtain ⟨s, run, hends, hwire, hlost, hsent, hdoubled, hspurious⟩ := run
  have hreceiving : ∀ who, (s.endpoints who).isReceiving = true := fun who => by
    rw [hends]
    rfl
  have hinit : (memPool_contract (MemPool.configured ⟨[8192], fun _ => ⟨1, 1⟩, by decide⟩) fun _ => none).Inv
      (MemPool.init ⟨[8192], fun _ => ⟨1, 1⟩, by decide⟩) (heldBy [] + (([] : List Nat) : Multiset Nat)) :=
    MemPool.inv_init (by decide)
  obtain ⟨n, t, hrun, hempty, hb⟩ := echoes_come_home
    (memPool_contract (MemPool.configured ⟨[8192], fun _ => ⟨1, 1⟩, by decide⟩) fun _ => none)
    (memPool_units32 (by decide) _) (ReceiverUDP.memPool_larger (by decide) (by decide) _) _ _
    (by exact fun _ => hinit) run hreceiving hwire
  have hclient := hb ⟨2, 256, ⟨1, 2, 3, 5⟩, 0⟩ [7] (by decide)
  rw [hlost, hsent, hdoubled, hspurious] at hclient
  exact ⟨s, run, n, t, hrun, hempty, hclient⟩

end UdpEcho

end Ven
