import Ven.LifeClosing

namespace Ven

variable {α : Type}

/-- A session with what keeps track of it: whether `tcp_clis_` of the `Net` and `use_` of its session pool contain
it, its share of `connected_cnt_` and `total_cnt_`, and whether `disconnect(true)` has been called. -/
structure Enrolled (α : Type) where
  session : SessionTCP α
  tcp_clis : Bool
  use : Bool
  connected_cnt : Nat
  total_cnt : Nat
  released : Bool

inductive EnrolledOp (α : Type)
  | life (op : LifeOp α)
  | stop_tcp_client (onDisc : List (Call α))

namespace LifeOp

def isAccept : LifeOp α → Bool
  | .accept _ _ => true
  | _ => false

end LifeOp

namespace SessionTCP

/-- Nothing is outstanding. -/
def Idle (s : SessionTCP α) : Prop := s.recvs = [] ∧ s.sends = [] ∧ s.discs = 0 ∧ s.conns = 0

instance (s : SessionTCP α) : Decidable s.Idle :=
  inferInstanceAs (Decidable (s.recvs = [] ∧ s.sends = [] ∧ s.discs = 0 ∧ s.conns = 0))

/-- The completion is that of a `ConnectEx` that failed, and nothing else is outstanding. -/
def LastFails (s : SessionTCP α) : LifeOp α → Prop
  | .conn err _ => err ≠ 0 ∧ { s with conns := s.conns - 1 }.Idle
  | _ => False

instance (s : SessionTCP α) : ∀ op, Decidable (s.LastFails op)
  | .conn err _ => inferInstanceAs (Decidable (err ≠ 0 ∧ { s with conns := s.conns - 1 }.Idle))
  | .connect _ => isFalse id
  | .call _ => isFalse id
  | .accept _ _ => isFalse id
  | .disc _ => isFalse id
  | .recv _ _ _ _ _ _ _ _ => isFalse id
  | .send _ _ _ _ _ _ => isFalse id

end SessionTCP

namespace Enrolled

def start (isServer : Bool) (initCnt stepCnt arrCnt : Nat) : Enrolled α where
  session := .start isServer initCnt stepCnt arrCnt
  tcp_clis := !isServer
  use := false
  connected_cnt := 0
  total_cnt := if isServer then 1 else 0
  released := false

/-- `accept` counts the session and takes it into `use_`; `disconnected` undoes both. -/
def enroll (e : Enrolled α) (op : LifeOp α) (s' : SessionTCP α) : Enrolled α :=
  let cnt := if op.isAccept then e.connected_cnt + 1 else e.connected_cnt
  let back := decide ((if op.isAccept then e.session.pooled - 1 else e.session.pooled) < s'.pooled)
  { session := s'
    tcp_clis := e.tcp_clis
    use := !back && (op.isAccept || e.use)
    connected_cnt := if back then cnt - 1 else cnt
    total_cnt := e.total_cnt
    released := e.released || e.session.asked id op }

/-- `Net::stop_tcp_client`. -/
def stop_tcp_client (e : Enrolled α) (onDisc : List (Call α)) : Enrolled α :=
  { e with
    tcp_clis := false
    session := e.session.disconnect true fun s => s.calls onDisc
    released := true }

def step (e : Enrolled α) : EnrolledOp α → Option (Enrolled α)
  | .life op => (e.session.step op).map (e.enroll op)
  | .stop_tcp_client onDisc =>
    if e.session.deleted || e.session.crashed || e.session.isServer then none else some (e.stop_tcp_client onDisc)

/-- The session is deleted only on request, and then at the latest once nothing is outstanding; `_on_disc`, which
deletes it, ran at most once; and nothing keeps track of a deleted session. -/
structure Disposed (e : Enrolled α) : Prop where
  requested : e.session.deleted = true → e.released = true
  done : e.session.crashed = false → e.released = true → e.session.Idle → e.session.deleted = true
  once : e.session.deleted = true → (Event.since e.session.trace).countP Event.isDisc ≤ 1
  gone : e.session.deleted = true → e.tcp_clis = false ∧ e.use = false ∧ e.connected_cnt = 0 ∧ e.total_cnt = 0

/-- A server session is not released at all. A client session is released by `stop_tcp_client` while something is
outstanding on it; after that nobody calls `disconnect(false)`, no `DisconnectEx` fails at once, and the last
operation outstanding is not a `ConnectEx` that fails. -/
def Releasable (e : Enrolled α) : EnrolledOp α → Prop
  | .life op =>
    if e.session.isServer then op.within (· == false) = true
    else e.session.Settled op ∧
      if e.released then op.within (· == true) = true ∧ op.ends = true ∧ ¬e.session.LastFails op
      else op.within (· == false) = true
  | .stop_tcp_client onDisc => Call.allWithin (· == true) onDisc = true ∧ (e.released = true ∨ ¬e.session.Idle)

instance (e : Enrolled α) : ∀ op, Decidable (e.Releasable op)
  | .life op => inferInstanceAs (Decidable (if e.session.isServer then op.within (· == false) = true
      else e.session.Settled op ∧
        if e.released then op.within (· == true) = true ∧ op.ends = true ∧ ¬e.session.LastFails op
        else op.within (· == false) = true))
  | .stop_tcp_client onDisc =>
    inferInstanceAs (Decidable (Call.allWithin (· == true) onDisc = true ∧ (e.released = true ∨ ¬e.session.Idle)))

end Enrolled

namespace SessionTCP

/-- Users who only call `disconnect(false)` do not have the session deleted. -/
def Spared (s : SessionTCP α) : Prop := s.isRelease = false ∧ s.deleted = false

variable {s s' : SessionTCP α}

theorem spared_frame : Frame (· == false) fun s s' : SessionTCP α => s'.isServer = s.isServer ∧ (s.Spared → s'.Spared) where
  refl s := ⟨rfl, id⟩
  trans s t u h h' := ⟨h'.1.trans h.1, fun hs => h'.2 (h.2 hs)⟩
  record s e _ := ⟨rfl, id⟩
  off s dovErr := ⟨rfl, id⟩
  fields s _ _ _ _ _ _ _ _ _ _ := ⟨rfl, id⟩
  release s r hr := ⟨rfl, fun hs => ⟨beq_iff_eq.mp hr, hs.2⟩⟩
  delete s hr := by
    refine ⟨rfl, fun hs => ?_⟩
    rw [hs.1] at hr
    cases hr
  giveBack s _ _ := ⟨rfl, id⟩

theorem opened_spared (s : SessionTCP α) : s.opened.isServer = s.isServer ∧ (s.Spared → s.opened.Spared) := by
  have opens := s.opened_spec
  exact ⟨opens.isServer, fun hs => ⟨opens.isRelease.trans hs.1, opens.deleted.trans hs.2⟩⟩

theorem connect_spared (s : SessionTCP α) (fail : Option Nat) :
    (s.connect fail).1.isServer = s.isServer ∧ (s.Spared → (s.connect fail).1.Spared) := by
  unfold connect
  split
  next => exact ⟨rfl, id⟩
  next =>
    split
    next => exact ⟨rfl, id⟩
    next =>
      split
      next => exact ⟨rfl, id⟩
      next =>
        cases fail with
        | none => exact ⟨rfl, id⟩
        | some err => exact ⟨rfl, id⟩

theorem connInit_spared (s : SessionTCP α) {o : Opening α} (plain : o.within (· == false) = true) :
    (s._on_conn_init o).isServer = s.isServer ∧ (s.Spared → (s._on_conn_init o).Spared) :=
  spared_frame.connInit plain s.opened_spared

theorem spared_step {op : LifeOp α} (plain : op.within (· == false) = true) (hs : s.step op = some s') :
    s'.isServer = s.isServer ∧ (s.Spared → s'.Spared) := by
  rcases spared_frame.step plain hs with
    ⟨spared, _⟩ | ⟨fail, _, hs'⟩ | ⟨updated, o, hop, _, hs'⟩ | ⟨err, o, hop, _, hs'⟩
  · exact spared
  · rw [hs']
    exact connect_spared s fail
  · rw [hop] at plain
    rw [hs']
    unfold _on_accept
    split
    next =>
      have kept := fun t : SessionTCP α => spared_frame.calls t o.onDisc (by
        simp only [LifeOp.within, Opening.within, Bool.and_eq_true] at plain
        exact plain.2)
      exact spared_frame.disconnect kept { s with pooled := s.pooled - 1 } rfl
    next => exact connInit_spared { s with pooled := s.pooled - 1 } plain
  · rw [hop] at plain
    rw [hs']
    unfold _on_conn
    dsimp only
    split
    next =>
      simp only [LifeOp.within, Opening.within, Bool.and_eq_true] at plain
      exact spared_frame.calls (SessionTCP.record { s with conns := s.conns - 1, isConnecting := false } (.refused err))
        o.onDisc plain.2
    next => exact connInit_spared { s with conns := s.conns - 1, isConnecting := false } plain

/-- Released while something of its connection is outstanding: the teardown will delete the session. -/
def Coming (s : SessionTCP α) : Prop := Closing false true False s ∧ 0 < s.gen

/-- Released while nothing but a `ConnectEx` is outstanding. -/
structure Dormant (s : SessionTCP α) : Prop where
  release : s.isRelease = true
  off : s.isConnected = false
  recvs : s.recvs = []
  sends : s.sends = []
  discs : s.discs = 0
  conns : 0 < s.conns
  alive : s.deleted = false

/-- The released session as it will be treated: `is_release_` is set and something is outstanding. -/
theorem coming_of_outstanding (sound : Sound 0 s) (client : s.Client)
    (busy : s.recvs ≠ [] ∨ s.sends ≠ [] ∨ 0 < s.discs) : Coming { s with isRelease := true } := by
  have honce := sound.once
  have hgen : 0 < s.gen := by
    by_contra hz
    have hfresh := sound.fresh (by omega)
    rcases busy with hb | hb | hb
    · exact hb hfresh.2.1
    · exact hb (List.eq_nil_of_length_eq_zero (by omega))
    · exact hz (sound.pending hb).1
  refine ⟨⟨⟨client.1, rfl, fun hdown => ?_⟩, fun _ hoff _ hup => ?_⟩, hgen⟩
  · obtain ⟨_, hrecvs, hsends⟩ := sound.down hdown
    rcases busy with hb | hb | hb
    · exact absurd hrecvs hb
    · exact absurd (List.eq_nil_of_length_eq_zero (by omega)) hb
    · left
      change s.discs = 1
      omega
  · have hdiscs := (sound.up hup).1
    rcases busy with hb | hb | hb
    · exact Or.inr (sound.receiving hb).2
    · left
      change s.sbuf.isSending = true
      have hpos := List.length_pos_iff.mpr hb
      have hcnt := sound.popCnt
      simp only [SBuf.isSending, decide_eq_true_eq]
      omega
    · omega

/-- A client session is not accepted. -/
theorem Client.not_accept {op : LifeOp α} (client : s.Client) (hs : s.step op = some s') :
    op.isAccept = false ∧ op.updates = true := by
  cases op with
  | accept updated o =>
    unfold SessionTCP.step at hs
    split at hs
    next => cases hs
    next =>
      simp only [handle] at hs
      split at hs
      next hpos =>
        have hnone := client.2
        omega
      next => cases hs
  | _ => exact ⟨rfl, rfl⟩

theorem Coming.step (h : Coming s) (sound : Sound 0 s) (client : s.Client) {op : LifeOp α} (settled : s.Settled op)
    (only : op.within (· == true) = true) (ends : op.ends = true) (hs : s.step op = some s') : Coming s' := by
  have server : false = true → true = false := fun hserver => absurd hserver Bool.false_ne_true
  exact ⟨h.1.step sound server settled only ends (Or.inl (client.not_accept hs).2) hs, (client.step hs).2 h.2⟩

theorem Dormant.connect (h : Dormant s) (fail : Option Nat) : Dormant (s.connect fail).1 := by
  unfold SessionTCP.connect
  split
  next => exact h
  next =>
    split
    next => exact h
    next =>
      split
      next => exact h
      next =>
        cases fail with
        | none => exact ⟨h.release, h.off, h.recvs, h.sends, h.discs, Nat.succ_pos _, h.alive⟩
        | some err => exact ⟨h.release, h.off, h.recvs, h.sends, h.discs, h.conns, h.alive⟩

/-- A `ConnectEx` that succeeds brings up the session, which will be torn down. -/
theorem Dormant.connected (h : Dormant s) (sound : Sound 0 s) (client : s.Client) {o : Opening α}
    (only : o.within (· == true) = true) (ends : o.ends = true) :
    Coming ({ s with conns := s.conns - 1 }._on_conn 0 o) := by
  have hside := sound.connecting false (s.conns - 1) (Or.inr client)
  have hopened := hside.openedUp h.recvs h.sends h.discs client.2
  have hconn : { s with conns := s.conns - 1 }._on_conn 0 o =
      { s with isConnecting := false, conns := s.conns - 1 }._on_conn_init o := by
    simp only [_on_conn, ne_eq, not_true_eq_false, if_false]
  have hgen := onConn_gen { s with conns := s.conns - 1 } 0 o
  rw [if_neg (by simp)] at hgen
  refine ⟨?_, ?_⟩
  · rw [hconn]
    exact Closing.connInit hopened client.1 h.release only ends
  · rw [hgen]
    exact Nat.succ_pos _

/-- A `ConnectEx` that fails while another one is outstanding. -/
theorem Dormant.refused (h : Dormant s) {err : Nat} (herr : err ≠ 0) {o : Opening α}
    (only : Call.allWithin (· == true) o.onDisc = true) (hmore : 0 < s.conns - 1) :
    Dormant ({ s with conns := s.conns - 1 }._on_conn err o) := by
  have hsilent := calls_silent only
    (SessionTCP.record { s with isConnecting := false, conns := s.conns - 1 } (.refused err)) h.off h.release
  have hconn : { s with conns := s.conns - 1 }._on_conn err o =
      SessionTCP.record { s with isConnecting := false, conns := s.conns - 1 } (.refused err) := by
    simp only [_on_conn, ne_eq, herr, not_false_eq_true, if_true]
    exact hsilent
  rw [hconn]
  exact ⟨h.release, h.off, h.recvs, h.sends, h.discs, hmore, h.alive⟩

theorem Dormant.step (h : Dormant s) (sound : Sound 0 s) (client : s.Client) {op : LifeOp α}
    (only : op.within (· == true) = true) (ends : op.ends = true) (lasts : ¬s.LastFails op)
    (hs : s.step op = some s') : Coming s' ∨ Dormant s' := by
  have haccept := (client.not_accept hs).1
  unfold SessionTCP.step at hs
  split at hs
  next => cases hs
  next =>
    cases op with
    | connect fail =>
      cases Option.some.inj hs
      exact Or.inr (h.connect fail)
    | call c =>
      cases Option.some.inj hs
      right
      have honly : Call.allWithin (· == true) [c] = true := by
        simp only [Call.allWithin, Bool.and_true]
        exact only
      have hsilent := calls_silent honly s h.off h.release
      simp only [calls] at hsilent
      rw [hsilent]
      exact h
    | accept updated o => cases haccept
    | conn err o =>
      simp only [handle] at hs
      split at hs
      next hpos =>
        cases Option.some.inj hs
        by_cases herr : err = 0
        · subst herr
          exact Or.inl (h.connected sound client only ends)
        · have hmore : 0 < s.conns - 1 := by
            by_contra hz
            exact lasts ⟨herr, h.recvs, h.sends, h.discs, by
              change s.conns - 1 = 0
              omega⟩
          simp only [LifeOp.within, Opening.within, Bool.and_eq_true] at only
          exact Or.inr (h.refused herr only.2 hmore)
      next => cases hs
    | disc onDisc =>
      simp only [handle] at hs
      split at hs
      next hpos =>
        have hnone := h.discs
        omega
      next => cases hs
    | recv g err bytes packets bad fail ok onDisc =>
      simp only [handle, h.recvs] at hs
      split at hs
      next hin => cases hin
      next => cases hs
    | send sov g err answers ok onDisc =>
      simp only [handle, h.sends] at hs
      split at hs
      next hin => cases hin
      next => cases hs

/-- `disconnect(true)` keeps a teardown that is coming. -/
theorem Coming.disconnect {onDisc : List (Call α)} (h : Coming { s with isRelease := true }) (sound : Sound 0 s)
    (only : Call.allWithin (· == true) onDisc = true) : Coming (s.disconnect true fun s => s.calls onDisc) := by
  have he := h.1.ending
  have hsame : s.disconnect true (fun s => s.calls onDisc) =
      { s with isRelease := true }.disconnect true fun s => s.calls onDisc := rfl
  have still : Still { s with isRelease := true } ({ s with isRelease := true }.disconnect true fun s => s.calls onDisc) :=
    still_frame.disconnect (still_calls onDisc) { s with isRelease := true } rfl
  have ht := he.disconnect sound.frame h.1.retried (calls_silent only)
  rw [hsame]
  refine ⟨ht.closing, ?_⟩
  rw [still.gen]
  exact h.2

theorem disconnect_off {f : SessionTCP α → SessionTCP α} (hoff : s.isConnected = false) (r : Bool) :
    s.disconnect r f = { s with isRelease := r } := by
  simp [disconnect, hoff]

end SessionTCP

namespace Enrolled

variable {e e' : Enrolled α}

/-- A client session, with what keeps track of it. -/
structure Tracked (e : Enrolled α) : Prop where
  sound : SessionTCP.Sound 0 e.session
  posted : e.session.Posted
  client : e.session.Client
  use : e.use = false
  connected_cnt : e.connected_cnt = 0
  total_cnt : e.total_cnt = 0
  phase : e.released = false ∧ e.session.Spared ∨
    e.released = true ∧ e.tcp_clis = false ∧ (e.session.Coming ∨ e.session.Dormant)

theorem Tracked.stop (h : Tracked e) {onDisc : List (Call α)} (only : Call.allWithin (· == true) onDisc = true)
    (busy : e.released = true ∨ ¬e.session.Idle) : Tracked (e.stop_tcp_client onDisc) := by
  have steady := h.sound.disconnect (SessionTCP.calls_off onDisc) true
  have still : SessionTCP.Still e.session (e.session.disconnect true fun s => s.calls onDisc) :=
    SessionTCP.still_frame.disconnect (SessionTCP.still_calls onDisc) e.session rfl
  refine ⟨steady.sound, h.posted.of_steady steady still, still.client h.client, h.use, h.connected_cnt, h.total_cnt,
    Or.inr ⟨rfl, rfl, ?_⟩⟩
  change (e.session.disconnect true fun s => s.calls onDisc).Coming ∨
    (e.session.disconnect true fun s => s.calls onDisc).Dormant
  rcases h.phase with ⟨hfresh, spared⟩ | ⟨_, _, coming | dormant⟩
  · have hbusy : ¬e.session.Idle := by
      rcases busy with hreleased | hbusy
      · rw [hfresh] at hreleased
        cases hreleased
      · exact hbusy
    by_cases hout : e.session.recvs ≠ [] ∨ e.session.sends ≠ [] ∨ 0 < e.session.discs
    · exact Or.inl ((SessionTCP.coming_of_outstanding h.sound h.client hout).disconnect h.sound only)
    · simp only [not_or, not_not, Nat.not_lt, Nat.le_zero] at hout
      have hoff : e.session.isConnected = false := by
        rw [Bool.eq_false_iff]
        exact fun hon => h.posted.connected hon hout.1
      right
      rw [SessionTCP.disconnect_off hoff]
      refine ⟨rfl, hoff, hout.1, hout.2.1, hout.2.2, ?_, spared.2⟩
      by_contra hz
      exact hbusy ⟨hout.1, hout.2.1, hout.2.2, by
        change ¬0 < e.session.conns at hz
        omega⟩
  · left
    refine SessionTCP.Coming.disconnect ?_ h.sound only
    have he := coming.1.ending
    exact ⟨⟨⟨he.server, rfl, he.ends⟩, coming.1.retried⟩, coming.2⟩
  · right
    rw [SessionTCP.disconnect_off dormant.off]
    exact ⟨rfl, dormant.off, dormant.recvs, dormant.sends, dormant.discs, dormant.conns, dormant.alive⟩

theorem Tracked.step (h : Tracked e) {op : EnrolledOp α} (releasable : e.Releasable op) (hs : e.step op = some e') :
    Tracked e' := by
  cases op with
  | life op =>
    obtain ⟨s', hlife, heq⟩ := Option.map_eq_some_iff.mp hs
    subst heq
    simp only [Releasable, h.client.1, Bool.false_eq_true, if_false] at releasable
    obtain ⟨settled, plain⟩ := releasable
    have haccept := (h.client.not_accept hlife).1
    refine ⟨h.sound.step settled hlife, h.posted.step h.sound settled hlife, (h.client.step hlife).1, ?_, ?_, h.total_cnt, ?_⟩
    · simp only [enroll, haccept, h.use, Bool.or_false, Bool.and_false]
    · simp only [enroll, haccept, h.connected_cnt, Bool.false_eq_true, if_false, Nat.zero_sub, ite_self]
    · rcases h.phase with ⟨hfresh, spared⟩ | ⟨hreleased, hclis, phase⟩
      · rw [if_neg (by simp [hfresh])] at plain
        left
        refine ⟨?_, (SessionTCP.spared_step plain hlife).2 spared⟩
        simp only [enroll, hfresh, SessionTCP.not_asked plain, Bool.or_false]
      · rw [if_pos hreleased] at plain
        obtain ⟨only, ends, lasts⟩ := plain
        refine Or.inr ⟨?_, hclis, ?_⟩
        · simp only [enroll, hreleased, Bool.true_or]
        · rcases phase with coming | dormant
          · exact Or.inl (coming.step h.sound h.client settled only ends hlife)
          · exact dormant.step h.sound h.client only ends lasts hlife
  | stop_tcp_client onDisc =>
    simp only [Enrolled.step] at hs
    split at hs
    next => cases hs
    next =>
      cases Option.some.inj hs
      exact h.stop releasable.1 releasable.2

theorem Tracked.disposed (h : Tracked e) : Disposed e := by
  rcases h.phase with ⟨hfresh, hspared⟩ | ⟨hreleased, hclis, phase⟩
  · refine ⟨fun hdeleted => ?_, fun _ hreleased => ?_, fun hdeleted => ?_, fun hdeleted => ?_⟩
    · rw [hspared.2] at hdeleted
      cases hdeleted
    · rw [hfresh] at hreleased
      cases hreleased
    · rw [hspared.2] at hdeleted
      cases hdeleted
    · rw [hspared.2] at hdeleted
      cases hdeleted
  · refine ⟨fun _ => hreleased, fun alive _ idle => ?_, fun hdeleted => ?_, fun _ =>
      ⟨hclis, h.use, h.connected_cnt, h.total_cnt⟩⟩
    · obtain ⟨hrecvs, hsends, hdiscs, hconns⟩ := idle
      rcases phase with coming | dormant
      · have hoff : e.session.isConnected = false := by
          rw [Bool.eq_false_iff]
          exact fun hon => h.posted.connected hon hrecvs
        rcases coming.1.waits h.sound h.posted alive coming.2 hoff with hw | hw | hw | ⟨_, hparted⟩
        · exact absurd hrecvs hw
        · exact absurd hsends hw
        · omega
        · rcases hparted with hdeleted | hlost
          · exact hdeleted
          · exact absurd hlost id
      · have hpos := dormant.conns
        omega
    · rcases phase with coming | dormant
      · exact h.sound.orderly.since_once (List.count_pos_iff.mp coming.2)
      · rw [dormant.alive] at hdeleted
        cases hdeleted

/-- A server session that is not released. -/
def Kept (e : Enrolled α) : Prop := e.session.isServer = true ∧ e.session.Spared ∧ e.released = false

theorem Kept.step (h : Kept e) {op : EnrolledOp α} (releasable : e.Releasable op) (hs : e.step op = some e') :
    Kept e' := by
  cases op with
  | life op =>
    obtain ⟨s', hlife, heq⟩ := Option.map_eq_some_iff.mp hs
    subst heq
    simp only [Releasable, h.1, if_true] at releasable
    obtain ⟨hserver, hspared⟩ := SessionTCP.spared_step releasable hlife
    refine ⟨hserver.trans h.1, hspared h.2.1, ?_⟩
    simp only [enroll, h.2.2, SessionTCP.not_asked releasable, Bool.or_false]
  | stop_tcp_client onDisc =>
    simp only [Enrolled.step, h.1, Bool.or_true, if_true] at hs
    cases hs

theorem Kept.disposed (h : Kept e) : Disposed e := by
  obtain ⟨_, hspared, hfresh⟩ := h
  have hthere : e.session.deleted ≠ true := by
    rw [hspared.2]
    exact Bool.false_ne_true
  refine ⟨fun hdeleted => absurd hdeleted hthere, fun _ hreleased => ?_, fun hdeleted => absurd hdeleted hthere,
    fun hdeleted => absurd hdeleted hthere⟩
  rw [hfresh] at hreleased
  cases hreleased

/-- A session whose releases meet the condition is disposed of as it should be, in every run. -/
theorem released_disposed {isServer : Bool} {initCnt stepCnt arrCnt : Nat} {ops : List (EnrolledOp α)}
    (releasable : Machine.Along step Releasable (start isServer initCnt stepCnt arrCnt) ops)
    (run : Machine.exec step (start isServer initCnt stepCnt arrCnt) ops = some e) : Disposed e := by
  cases isServer with
  | true =>
    have hstart : Kept (start true initCnt stepCnt arrCnt : Enrolled α) := ⟨rfl, ⟨rfl, rfl⟩, rfl⟩
    exact (Machine.exec_invariant_along (fun _ _ _ h releasable hs => Kept.step h releasable hs) hstart releasable
      run).disposed
  | false =>
    have hstart : Tracked (start false initCnt stepCnt arrCnt : Enrolled α) := by
      refine ⟨SessionTCP.sound_start false initCnt stepCnt arrCnt, ⟨nofun, nofun⟩, ⟨rfl, rfl⟩, rfl, rfl, rfl, ?_⟩
      exact Or.inl ⟨rfl, rfl, rfl⟩
    exact (Machine.exec_invariant_along (fun _ _ _ h releasable hs => Tracked.step h releasable hs) hstart releasable
      run).disposed

/-- A client is stopped while it sends and receives, and deleted with the last completion; then one that is
stopped while it connects. -/
def stopping : List (EnrolledOp Nat) :=
  [.life (.connect none), .life (.conn 0 ⟨[.send (some 7) [] true []], none, true, []⟩), .life (.call (.disconnect false [])),
    .life (.send 0 1 0 [] true []), .life (.recv 1 10053 0 [] false none true [.disconnect false []]), .life (.connect none),
    .stop_tcp_client [], .life (.conn 0 ⟨[.send (some 9) [] true []], none, true, []⟩), .stop_tcp_client [.disconnect true []],
    .life (.send 1 2 0 [] true []), .life (.recv 2 10053 0 [] false none true [.disconnect true []])]

theorem released_disposed_sample :
    ∃ e, Machine.exec step (start false 1 1 3) stopping = some e ∧ e.session.deleted = true ∧ Disposed e := by
  have run : (Machine.exec step (start false 1 1 3) stopping).map (fun e => e.session.deleted) = some true := by
    decide +kernel
  have releasable : Machine.Along step Releasable (start false 1 1 3) stopping := by decide +kernel
  obtain ⟨e, run, hdeleted⟩ := Option.map_eq_some_iff.mp run
  exact ⟨e, run, hdeleted, released_disposed releasable run⟩

/-- What a release that went wrong leaves. -/
theorem not_disposed_of_alive {e : Enrolled α} (h : (e.session.deleted, e.session.crashed, e.released, decide e.session.Idle) =
    (false, false, true, true)) : e.session.deleted = false ∧ ¬Disposed e := by
  simp only [Prod.mk.injEq, decide_eq_true_eq] at h
  obtain ⟨hthere, halive, hreleased, hidle⟩ := h
  refine ⟨hthere, fun hdisposed => ?_⟩
  have hdeleted := hdisposed.done halive hreleased hidle
  rw [hthere] at hdeleted
  cases hdeleted

/-- A client that never connected is not deleted, a later `disconnect(false)` takes the release back, and a deleted
server session stays in `use_` and in the counts. -/
theorem release_not_disposed :
    (∃ e : Enrolled Nat, Machine.exec step (start false 1 1 1) [.stop_tcp_client []] = some e ∧
      e.session.deleted = false ∧ ¬Disposed e) ∧
    (∃ e : Enrolled Nat, Machine.exec step (start false 1 1 1) [.life (.connect none),
        .life (.conn 0 ⟨[], none, true, []⟩), .stop_tcp_client [], .life (.call (.disconnect false [])),
        .life (.recv 1 10053 0 [] false none true [])] = some e ∧
      e.session.deleted = false ∧ ¬Disposed e) ∧
    ∃ e : Enrolled Nat, Machine.exec step (start true 1 1 1) [.life (.accept true ⟨[], none, true, []⟩),
        .life (.call (.disconnect true [])), .life (.recv 1 10053 0 [] false none true [])] = some e ∧
      (e.session.deleted, e.use, e.connected_cnt, e.total_cnt) = (true, true, 1, 1) ∧ ¬Disposed e := by
  refine ⟨?_, ?_, ?_⟩
  · obtain ⟨e, run, h⟩ := Option.map_eq_some_iff.mp (show (Machine.exec step (start false 1 1 1 : Enrolled Nat)
      [.stop_tcp_client []]).map (fun e => (e.session.deleted, e.session.crashed, e.released, decide e.session.Idle)) =
        some (false, false, true, true) by decide +kernel)
    exact ⟨e, run, not_disposed_of_alive h⟩
  · obtain ⟨e, run, h⟩ := Option.map_eq_some_iff.mp (show (Machine.exec step (start false 1 1 1 : Enrolled Nat)
      [.life (.connect none), .life (.conn 0 ⟨[], none, true, []⟩), .stop_tcp_client [], .life (.call (.disconnect false [])),
        .life (.recv 1 10053 0 [] false none true [])]).map
        (fun e => (e.session.deleted, e.session.crashed, e.released, decide e.session.Idle)) =
        some (false, false, true, true) by decide +kernel)
    exact ⟨e, run, not_disposed_of_alive h⟩
  · obtain ⟨e, run, h⟩ := Option.map_eq_some_iff.mp (show (Machine.exec step (start true 1 1 1 : Enrolled Nat)
      [.life (.accept true ⟨[], none, true, []⟩), .life (.call (.disconnect true [])),
        .life (.recv 1 10053 0 [] false none true [])]).map
        (fun e => (e.session.deleted, e.use, e.connected_cnt, e.total_cnt)) = some (true, true, 1, 1) by decide +kernel)
    refine ⟨e, run, h, fun hdisposed => ?_⟩
    simp only [Prod.mk.injEq] at h
    have hgone := (hdisposed.gone h.1).2.1
    rw [h.2.1] at hgone
    cases hgone

end Enrolled

end Ven
