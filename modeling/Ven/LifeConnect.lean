import Ven.LifeRequests

namespace Ven

variable {α : Type}

/-- A session and whether a `disconnect()` has returned since a `connect()` was accepted last. -/
structure Requested (α : Type) where
  session : SessionTCP α
  pending : Bool

namespace SessionTCP

variable {s s' : SessionTCP α}

/-- The `ConnectEx`s that are outstanding while the users are called in the step. -/
def connecting (s : SessionTCP α) : LifeOp α → Nat
  | .conn _ _ => s.conns - 1
  | _ => s.conns

end SessionTCP

namespace Requested

/-- `connect()` returns true. -/
def accepted (c : Requested α) : LifeOp α → Bool
  | .connect fail => (c.session.connect fail).2
  | _ => false

def step (c : Requested α) (op : LifeOp α) : Option (Requested α) :=
  (c.session.step op).map fun s' =>
    { session := s'
      pending := !c.accepted op && (c.pending || c.session.asked (fun _ => true) op) }

def start (initCnt stepCnt arrCnt : Nat) : Requested α where
  session := .start false initCnt stepCnt arrCnt
  pending := false

/-- While the last `disconnect()` stands, the step brings up no connection. -/
def Kept (c : Requested α) (op : LifeOp α) : Prop :=
  ∀ c', c.step op = some c' → c.pending = true →
    c'.session.gen = c.session.gen ∧ (c.session.isConnected = false → c'.session.isConnected = false)

/-- No `disconnect()` returns while a `ConnectEx` is outstanding. -/
def Heard (c : Requested α) (op : LifeOp α) : Prop :=
  c.session.asked (fun _ => true) op = true → c.session.connecting op = 0

instance (c : Requested α) (op : LifeOp α) : Decidable (c.Heard op) :=
  inferInstanceAs (Decidable (c.session.asked (fun _ => true) op = true → c.session.connecting op = 0))

/-- With a `disconnect()` standing, no `ConnectEx` is outstanding. -/
def Quelled (c : Requested α) : Prop := c.session.Client ∧ (c.pending = true → c.session.conns = 0)

variable {c c' : Requested α} {op : LifeOp α}

theorem Quelled.still {s' : SessionTCP α} (h : Quelled c) (heard : c.Heard op) (still : c.session.Still s')
    (hconnecting : c.session.connecting op = c.session.conns) :
    Quelled ⟨s', !c.accepted op && (c.pending || c.session.asked (fun _ => true) op)⟩ := by
  refine ⟨still.client h.1, fun hpending => ?_⟩
  simp only [Bool.and_eq_true, Bool.or_eq_true] at hpending
  change s'.conns = 0
  rw [still.conns]
  rcases hpending.2 with hstands | hasked
  · exact h.2 hstands
  · rw [← hconnecting]
    exact heard hasked

theorem Quelled.step (h : Quelled c) (heard : c.Heard op) : c.Kept op ∧ ∀ c', c.step op = some c' → Quelled c' := by
  suffices hall : ∀ s', c.session.step op = some s' →
      (c.pending = true → s'.gen = c.session.gen ∧ (c.session.isConnected = false → s'.isConnected = false)) ∧
        Quelled ⟨s', !c.accepted op && (c.pending || c.session.asked (fun _ => true) op)⟩ by
    constructor
    · intro c' hs hpending
      obtain ⟨s', hs, heq⟩ := Option.map_eq_some_iff.mp hs
      rw [← heq]
      exact (hall s' hs).1 hpending
    · intro c' hs
      obtain ⟨s', hs, heq⟩ := Option.map_eq_some_iff.mp hs
      rw [← heq]
      exact (hall s' hs).2
  intro s' hs
  rcases SessionTCP.still_frame.step op.within_true hs with
    ⟨still, hconn⟩ | ⟨fail, hop, hs'⟩ | ⟨updated, o, hop, hpos, _⟩ | ⟨err, o, hop, hpos, hs'⟩
  · refine ⟨fun _ => ⟨still.gen, still.off⟩, h.still heard still ?_⟩
    cases op with
    | conn err o => exact absurd rfl (hconn err o)
    | _ => rfl
  · subst hop hs'
    obtain ⟨hgen, hon, hclient⟩ := SessionTCP.connect_off c.session fail
    refine ⟨fun _ => ⟨hgen, fun hoff => hon.trans hoff⟩, hclient h.1, fun hpending => ?_⟩
    simp only [accepted, SessionTCP.asked, Bool.or_false, Bool.and_eq_true, Bool.not_eq_true'] at hpending
    change (c.session.connect fail).1.conns = 0
    rw [SessionTCP.connect_refused hpending.1]
    exact h.2 hpending.2
  · have hnone := h.1.2
    omega
  · subst hop
    obtain ⟨hconns, hclient⟩ := SessionTCP.onConn_conns { c.session with conns := c.session.conns - 1 } err o
    refine ⟨fun hpending => ?_, ?_, fun hpending => ?_⟩
    · have hnone := h.2 hpending
      omega
    · rw [hs']
      exact hclient h.1
    · change s'.conns = 0
      rw [hs', hconns]
      simp only [Bool.and_eq_true, Bool.or_eq_true] at hpending
      rcases hpending.2 with hstands | hasked
      · have hnone := h.2 hstands
        omega
      · exact heard hasked

/-- A client session whose users never call `disconnect()` while a `ConnectEx` is outstanding comes up only after
a later `connect()` was accepted. -/
theorem no_request_lost {initCnt stepCnt arrCnt : Nat} {ops : List (LifeOp α)}
    (heard : Machine.Along step Heard (start initCnt stepCnt arrCnt) ops) :
    Machine.Along step Kept (start initCnt stepCnt arrCnt) ops :=
  Machine.along_of_along (I := Quelled) (fun _ _ h heard => h.step heard)
    ⟨⟨rfl, rfl⟩, fun hpending => absurd hpending Bool.false_ne_true⟩ heard

/-- A client that is closed from `on_conn`, and connected again from outside. -/
def redialing : List (LifeOp Nat) :=
  [.connect none, .conn 0 ⟨[.disconnect false [.disconnect false []]], none, true, []⟩, .call (.disconnect false []),
    .connect none, .conn 10061 ⟨[], none, true, [.disconnect false []]⟩, .connect none, .conn 0 ⟨[], none, true, []⟩]

theorem no_request_lost_sample :
    (Machine.exec step (start 1 1 1) redialing).map (fun c => (c.session.gen, c.pending)) = some (2, false) ∧
      Machine.Along step Kept (start 1 1 1) redialing := by
  have heard : Machine.Along step Heard (start 1 1 1) redialing := by decide +kernel
  exact ⟨by decide +kernel, no_request_lost heard⟩

/-- `disconnect()` returns while the `ConnectEx` pends, and the session comes up all the same. -/
theorem request_lost :
    ∃ c : Requested Nat, Machine.exec step (start 1 1 1) [.connect none, .call (.disconnect false []),
        .conn 0 ⟨[], none, true, []⟩] = some c ∧
      c.pending = true ∧ c.session.isConnected = true ∧ c.session.trace = [.conn] ∧
      ¬Machine.Along step Kept (start 1 1 1 : Requested Nat) [.connect none, .call (.disconnect false []),
        .conn 0 ⟨[], none, true, []⟩] := by
  refine ⟨_, rfl, rfl, rfl, rfl, fun along => ?_⟩
  have hkept := (((along.2 _ rfl).2 _ rfl).1 _ rfl rfl).1
  cases hkept

end Requested

end Ven
