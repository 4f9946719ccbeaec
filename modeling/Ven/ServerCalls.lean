import Ven.ServerBooks

namespace Ven

open Locks

variable {α : Type}

namespace SessionTCP

variable {s t u : SessionTCP α}

/-- What calls on any session can do to this one: nothing when it is off. -/
structure Touched (s s' : SessionTCP α) : Prop where
  off : s.isConnected = false → s' = s
  steady : Sound 0 s → Steady s s'

theorem Touched.refl (s : SessionTCP α) : Touched s s := ⟨fun _ => rfl, fun h => h.refl⟩

theorem Touched.trans (h : Touched s t) (h' : Touched t u) : Touched s u := by
  refine ⟨fun hoff => ?_, fun hs => (h.steady hs).trans (h'.steady (h.steady hs).sound)⟩
  have hst := h.off hoff
  rw [h'.off (hst ▸ hoff), hst]

theorem gentle_id : Gentle (id : SessionTCP α → SessionTCP α) := fun s _ => ⟨s.isRelease, rfl⟩

/-- `_on_disc` of a session of a server. -/
theorem onDisc_id (server : s.isServer = true) (release : s.isRelease = false) :
    s._on_disc id = { s.closed with pooled := s.closed.pooled + 1 } := by
  have hsplit : s._on_disc id = if s.closed.isRelease then { s.closed with deleted := true }
    else if s.closed.isServer then { s.closed with pooled := s.closed.pooled + 1 } else s.closed := rfl
  have hrelease : s.closed.isRelease = s.isRelease := rfl
  have hserver : s.closed.isServer = s.isServer := rfl
  rw [hsplit, hrelease, hserver, release, server]
  rfl

theorem sendBuf_queue {buf : Option α} {post : SessionTCP α → Nat → SessionTCP α × Bool} (hon : s.isConnected = true) :
    (s.sendBuf buf post).1 =
      match (s.queue buf).2 with
      | none => (s.queue buf).1
      | some sov => (post (s.queue buf).1 sov).1 := by
  unfold sendBuf queue
  rw [hon]
  simp only [Bool.not_true, Bool.false_eq_true, if_false]
  cases hpush : s.sbuf.push s.pool buf with
  | none => rfl
  | some pool =>
    dsimp only
    cases hpop : s.sbuf.pop pool with
    | none => rfl
    | some r =>
      obtain ⟨sov, sbuf, q⟩ := r
      cases sov with
      | none => rfl
      | some sov => rfl

theorem queue_frame (s : SessionTCP α) (buf : Option α) : (s.queue buf).1.pooled = s.pooled ∧
    (s.queue buf).1.isServer = s.isServer ∧ (s.queue buf).1.isRelease = s.isRelease := by
  unfold queue
  split
  next => exact ⟨rfl, rfl, rfl⟩
  next =>
    dsimp only
    split
    next => exact ⟨rfl, rfl, rfl⟩
    next => exact ⟨rfl, rfl, rfl⟩

end SessionTCP

namespace Server

open SessionTCP (Touched Sound)

variable {cnt hand i : Nat} {v v' w : Server α} {f : ServerProg α → ServerProg α} {s s' : SessionTCP α}

/-- The books are in order, and so is every session that is connected. -/
structure Ready (cnt hand : Nat) (v : Server α) : Prop where
  books : Books cnt hand v
  sound : ∀ i, (v.session i).isConnected = true → Sound 0 (v.session i)

/-- What user code leaves behind. -/
structure Called (cnt hand : Nat) (v v' : Server α) : Prop where
  books : Books cnt hand v'
  idle : ∀ m, Idle m v → Idle m v'
  touched : ∀ i, Touched (v.session i) (v'.session i)

/-- What a handler of session `i` leaves behind, with the session as `s`. -/
structure Handled (cnt hand i : Nat) (s : SessionTCP α) (v v' : Server α) : Prop where
  books : Books cnt hand v'
  idle : ∀ m, Idle m v → Idle m v'
  session : v'.session i = s
  others : ∀ j, j ≠ i → Touched (v.session j) (v'.session j)

/-- User code that may be called at any time. -/
def Callback (cnt : Nat) (f : ServerProg α → ServerProg α) : Prop :=
  ∀ hand v, Ready cnt hand v → ∃ v', Called cnt hand v v' ∧ ∀ k, (f k).run v = k.run v'

theorem Ready.elsewhere (h : Ready cnt hand v) (j : Nat) (_ : j ≠ i) (hon : (v.session j).isConnected = true) :
    Sound 0 (v.session j) := h.sound j hon

theorem Ready.called (h : Ready cnt hand v) (called : Called cnt hand v v') : Ready cnt hand v' := by
  refine ⟨called.books, fun i hon => ?_⟩
  have hv : (v.session i).isConnected = true := by
    by_contra hoff
    have hsame := (called.touched i).off (Bool.eq_false_iff.mpr hoff)
    rw [hsame] at hon
    exact hoff hon
  exact ((called.touched i).steady (h.sound i hv)).sound

theorem Called.refl (h : Books cnt hand v) : Called cnt hand v v := ⟨h, fun _ hi => hi, fun i => Touched.refl (v.session i)⟩

theorem Called.trans (h : Called cnt hand v v') (h' : Called cnt hand v' w) : Called cnt hand v w :=
  ⟨h'.books, fun m hi => h'.idle m (h.idle m hi), fun i => (h.touched i).trans (h'.touched i)⟩

theorem Handled.trans (h : Handled cnt hand i s v v') (h' : Handled cnt hand i s' v' w) : Handled cnt hand i s' v w :=
  ⟨h'.books, fun m hi => h'.idle m (h.idle m hi), h'.session, fun j hj => (h.others j hj).trans (h'.others j hj)⟩

theorem Handled.ready (h : ∀ j, j ≠ i → (v.session j).isConnected = true → Sound 0 (v.session j))
    (handled : Handled cnt hand i s v v') (sound : s.isConnected = true → Sound 0 s) : Ready cnt hand v' := by
  refine ⟨handled.books, fun j hon => ?_⟩
  by_cases hj : j = i
  · subst hj
    rw [handled.session] at hon ⊢
    exact sound hon
  · have hv : (v.session j).isConnected = true := by
      by_contra hoff
      have hsame := (handled.others j hj).off (Bool.eq_false_iff.mpr hoff)
      rw [hsame] at hon
      exact hoff hon
    exact ((handled.others j hj).steady (h j hj hv)).sound

theorem Handled.called (handled : Handled cnt hand i s v v') (touched : Touched (v.session i) s) : Called cnt hand v v' := by
  refine ⟨handled.books, handled.idle, fun j => ?_⟩
  by_cases hj : j = i
  · subst hj
    rw [handled.session]
    exact touched
  · exact handled.others j hj

/-- User code leaves a session that is off as it is. -/
theorem Called.handled (h : Called cnt hand v v') (hoff : (v.session i).isConnected = false) :
    Handled cnt hand i (v.session i) v v' := ⟨h.books, h.idle, (h.touched i).off hoff, fun j _ => h.touched j⟩

/-- A change of one session that the books do not see. -/
theorem Books.handled (h : Books cnt hand v) {g : SessionTCP α → SessionTCP α}
    (pooled : (g (v.session i)).pooled = (v.session i).pooled) (server : (g (v.session i)).isServer = (v.session i).isServer)
    (release : (g (v.session i)).isRelease = false) : Handled cnt hand i (g (v.session i)) v (v.change i g) := by
  refine ⟨h.change pooled server release, fun _ hi => hi, change_self i g v, fun j hj => ?_⟩
  rw [change_other hj]
  exact Touched.refl (v.session j)

theorem Handled.refl (h : Books cnt hand v) (i : Nat) : Handled cnt hand i (v.session i) v v :=
  ⟨h, fun _ hi => hi, rfl, fun j _ => Touched.refl (v.session j)⟩

theorem Handled.change (h : Handled cnt hand i s v v') (g : SessionTCP α → SessionTCP α) (pooled : (g s).pooled = s.pooled)
    (server : (g s).isServer = s.isServer) (release : (g s).isRelease = s.isRelease) :
    Handled cnt hand i (g s) v (v'.change i g) := by
  have hself := h.session
  subst hself
  exact h.trans (h.books.handled pooled server (release.trans (h.books.release i)))

theorem Called.any (h : Called cnt hand v v') (i : Nat) : Handled cnt hand i (v'.session i) v v' :=
  ⟨h.books, h.idle, rfl, fun j _ => h.touched j⟩

/-- `_on_disc` of a session that is off. -/
theorem Callback.onDisc (hf : Callback cnt f) {accepts : List Bool} (full : enough cnt accepts = true) (h : Ready cnt hand v)
    (hoff : (v.session i).isConnected = false) (hpooled : (v.session i).pooled = 0) :
    ∃ v', Handled cnt hand i ((v.session i)._on_disc id) v v' ∧ ∀ k, (Server._on_disc i accepts f k).run v = k.run v' := by
  have hclosed : Handled cnt hand i (v.session i).closed v (v.change i SessionTCP.closed) :=
    h.books.handled rfl rfl (h.books.release i)
  have hquiet : (v.session i).closed.isConnected = false := hoff
  obtain ⟨mid, called, hcall⟩ := hf hand _ (hclosed.ready h.elsewhere fun hon => absurd hon (Bool.eq_false_iff.mp hquiet))
  have hmid : Handled cnt hand i (v.session i).closed v mid := by
    refine hclosed.trans ?_
    rw [← hclosed.session]
    exact called.handled (hclosed.session ▸ hquiet)
  have hback : (mid.session i).pooled = 0 := by
    rw [hmid.session]
    exact hpooled
  obtain ⟨v', hv', hidle, hsession, hrun⟩ := hmid.books.disconnected hback full
  refine ⟨v', ⟨hv', fun m _ => hidle.mono, ?_, fun j hj => ?_⟩, fun k => ?_⟩
  · rw [hsession, change_self, hmid.session, SessionTCP.onDisc_id (h.books.server i) (h.books.release i)]
  · rw [hsession, change_other hj]
    exact hmid.others j hj
  · have hrelease : (mid.session i).isRelease = false := hmid.books.release i
    simp only [Server._on_disc, Prog.run_locked, Prog.run_update, hcall, Prog.run_test, hrelease, Bool.false_eq_true, if_false,
      hrun, Prog.run_unlock]

/-- `_disconnect` of a session that has been connected. -/
theorem Callback.disconnectWith (hf : Callback cnt f) {accepts : List Bool} (full : enough cnt accepts = true)
    (h : Ready cnt hand v) (sound : Sound 0 (v.session i)) (hgen : 0 < (v.session i).gen) (err : Nat) :
    ∃ v', Handled cnt hand i ((v.session i)._disconnect err true id) v v' ∧
      ∀ k, (Server._disconnect i err true accepts f k).run v = k.run v' := by
  let off : SessionTCP α → SessionTCP α := fun s =>
    { s.record (.disconnect err) with dovErr := if s.isConnected then err else s.dovErr, isConnected := false }
  have hoff : Handled cnt hand i (off (v.session i)) v (v.change i off) := h.books.handled rfl rfl (h.books.release i)
  have hready : Ready cnt hand (v.change i off) := hoff.ready h.elsewhere fun hon => absurd hon Bool.false_ne_true
  have hself := hoff.session
  let down : SessionTCP α → SessionTCP α := fun s => { s with isDisconnecting := true }
  have hrun : ∀ k, (Server._disconnect i err true accepts f k).run v =
      Prog.run (if ((v.change i off).session i).sbuf.isSending || ((v.change i off).session i).isReceiving then
          .unlock (.cd i) k
        else if ((v.change i off).session i).isDisconnecting then .unlock (.cd i) k
        else
          .act (change i down) fun v =>
            if (v.session i).isForceDisconnecting then Server._on_disc i accepts f (.unlock (.cd i) k)
            else .update (change i fun s => { s with discs := s.discs + 1 }) (.unlock (.cd i) k)) (v.change i off) :=
    fun _ => rfl
  have hsession : (v.session i)._disconnect err true id =
      if (off (v.session i)).sbuf.isSending || (off (v.session i)).isReceiving then off (v.session i)
      else if (off (v.session i)).isDisconnecting then off (v.session i)
      else if (off (v.session i)).isForceDisconnecting then (down (off (v.session i)))._on_disc id
      else { down (off (v.session i)) with discs := (off (v.session i)).discs + 1 } := rfl
  rw [hself] at hrun
  by_cases hbusy : ((off (v.session i)).sbuf.isSending || (off (v.session i)).isReceiving) = true
  · rw [hsession, if_pos hbusy]
    refine ⟨v.change i off, hoff, fun k => ?_⟩
    rw [hrun, if_pos hbusy]
    rfl
  · rw [if_neg hbusy] at hsession
    by_cases hdown : (off (v.session i)).isDisconnecting = true
    · rw [hsession, if_pos hdown]
      refine ⟨v.change i off, hoff, fun k => ?_⟩
      rw [hrun, if_neg hbusy, if_pos hdown]
      rfl
    · rw [if_neg hdown] at hsession
      have hmark : Handled cnt hand i (down (off (v.session i))) v ((v.change i off).change i down) :=
        hoff.change down rfl rfl rfl
      have hpooled : (v.session i).pooled = 0 := by
        have hup : (v.session i).isDisconnecting = false := Bool.eq_false_iff.mpr hdown
        exact ((sound.up hup).2 hgen).1
      by_cases hforce : (off (v.session i)).isForceDisconnecting = true
      · have hoffmark : (((v.change i off).change i down).session i).isConnected = false := by
          rw [hmark.session]
        have hpoolmark : (((v.change i off).change i down).session i).pooled = 0 := by
          rw [hmark.session]
          exact hpooled
        have hreadymark := hmark.ready h.elsewhere fun hon => absurd hon Bool.false_ne_true
        obtain ⟨v', hv', hdisc⟩ := hf.onDisc full hreadymark hoffmark hpoolmark
        rw [hmark.session] at hv'
        rw [hsession, if_pos hforce]
        refine ⟨v', hmark.trans hv', fun k => ?_⟩
        rw [hrun, if_neg hbusy, if_neg hdown, Prog.run_act, hself, if_pos hforce, hdisc, Prog.run_unlock]
      · have hposted : Handled cnt hand i { down (off (v.session i)) with discs := (off (v.session i)).discs + 1 } v
            (((v.change i off).change i down).change i fun s => { s with discs := s.discs + 1 }) :=
          hmark.change (fun s => { s with discs := s.discs + 1 }) rfl rfl rfl
        rw [hsession, if_neg hforce]
        refine ⟨_, hposted, fun k => ?_⟩
        rw [hrun, if_neg hbusy, if_neg hdown, Prog.run_act, hself, if_neg hforce]
        rfl

/-- `disconnect(false)` of a session of the server only goes on when the session is connected. -/
theorem Books.disconnectAsked (h : Books cnt hand v) (i : Nat) :
    Handled cnt hand i (v.session i) v (v.change i fun s => { s with isRelease := false }) ∧
      ∀ accepts k, (Server.disconnect i false accepts f k).run v =
        Prog.run (if !(v.session i).isConnected then .unlock (.cd i) k
          else if (v.session i).isForceDisconnecting then .unlock (.cd i) k
          else .update (Server.change i fun s => { s with isForceDisconnecting := true })
            (Server._disconnect i 0 true accepts f (.unlock (.cd i) k))) (v.change i fun s => { s with isRelease := false }) := by
  refine ⟨?_, fun accepts k => rfl⟩
  have hsame : { v.session i with isRelease := false } = v.session i := by rw [← h.release i]
  have hchange : Handled cnt hand i { v.session i with isRelease := false } v
      (v.change i fun s => { s with isRelease := false }) := h.handled (g := fun s => { s with isRelease := false }) rfl rfl rfl
  rw [hsame] at hchange
  exact hchange

/-- `disconnect(false)` of a session that is off. -/
theorem Books.disconnectOff (h : Books cnt hand v) (hoff : (v.session i).isConnected = false) :
    ∃ v', Handled cnt hand i (v.session i) v v' ∧ ∀ accepts k, (Server.disconnect i false accepts f k).run v = k.run v' := by
  obtain ⟨hasked, hrun⟩ := h.disconnectAsked (f := f) i
  refine ⟨_, hasked, fun accepts k => ?_⟩
  rw [hrun, hoff]
  rfl

theorem Callback.disconnect (hf : Callback cnt f) {accepts : List Bool} (full : enough cnt accepts = true)
    (h : Ready cnt hand v) (i : Nat) :
    ∃ v', Called cnt hand v v' ∧ ∀ k, (Server.disconnect i false accepts f k).run v = k.run v' := by
  let asked : SessionTCP α → SessionTCP α := fun s => { s with isRelease := false }
  let forced : SessionTCP α → SessionTCP α := fun s => { s with isForceDisconnecting := true }
  have hsame : asked (v.session i) = v.session i := by
    have hrelease := h.books.release i
    change { v.session i with isRelease := false } = v.session i
    rw [← hrelease]
  obtain ⟨hasked, hask⟩ := h.books.disconnectAsked (f := f) i
  have hrun := hask accepts
  by_cases hoff : (!(v.session i).isConnected) = true
  · obtain ⟨v', hv', hoffrun⟩ := h.books.disconnectOff (f := f) (by simpa using hoff)
    exact ⟨v', hv'.called (Touched.refl _), hoffrun accepts⟩
  · by_cases hforce : (v.session i).isForceDisconnecting = true
    · refine ⟨v.change i asked, hasked.called (Touched.refl _), fun k => ?_⟩
      rw [hrun, if_neg hoff, if_pos hforce, Prog.run_unlock]
    · have hon : (v.session i).isConnected = true := by
        simpa using hoff
      have sound := h.sound i hon
      have hforced : Handled cnt hand i (forced (v.session i)) v ((v.change i asked).change i forced) :=
        hasked.change forced rfl rfl rfl
      have hsound : Sound 0 (forced (v.session i)) := sound.frame
      have hself := hforced.session
      obtain ⟨v', hv', hdisc⟩ := hf.disconnectWith full (hforced.ready h.elsewhere fun _ => hsound) (hself.symm ▸ hsound)
        (hself.symm ▸ sound.opened hon) 0
      rw [hself] at hv'
      have hsession : (v.session i).disconnect false id = (forced (v.session i))._disconnect 0 true id := by
        unfold SessionTCP.disconnect
        change (if !(asked (v.session i)).isConnected then asked (v.session i)
          else if (asked (v.session i)).isForceDisconnecting then asked (v.session i)
          else (forced (asked (v.session i)))._disconnect 0 true id) = _
        rw [hsame, if_neg hoff, if_neg hforce]
      rw [← hsession] at hv'
      refine ⟨v', (hforced.trans hv').called ⟨fun hno => ?_, fun hs => hs.disconnect SessionTCP.gentle_id false⟩, fun k => ?_⟩
      · rw [hon] at hno
        cases hno
      · rw [hrun, if_neg hoff, if_neg hforce, Prog.run_update, hdisc, Prog.run_unlock]

/-- `send` of a session that is connected, when `WSASend` pends. -/
theorem Ready.send (h : Ready cnt hand v) (hon : (v.session i).isConnected = true) (buf : Option α)
    {answers : List (Option Nat)} (pends : answers.all Option.isNone = true) (ok : Bool) (accepts : List Bool) :
    ∃ v', Handled cnt hand i ((v.session i).send buf answers ok id).1 v v' ∧
      ∀ k, (Server.send i buf answers ok accepts f k).run v = k.run v' := by
  let posted : Nat → SessionTCP α → SessionTCP α := fun sov s => { s with sends := (sov, s.gen) :: s.sends }
  have hpost : ∀ (s : SessionTCP α) (sov : Nat), (SessionTCP.sendSov ok id answers s sov).1 = posted sov s := by
    intro s sov
    cases answers with
    | nil => rfl
    | cons answer answers =>
      cases answer with
      | none => rfl
      | some err => simp at pends
  have hprog : ∀ sov k, Server.sendSov i ok accepts f answers sov k = .update (change i (posted sov)) k := by
    intro sov k
    cases answers with
    | nil => rfl
    | cons answer answers =>
      cases answer with
      | none => rfl
      | some err => simp at pends
  have hframe := (v.session i).queue_frame buf
  have hqueue : Handled cnt hand i ((v.session i).queue buf).1 v (v.change i fun s => (s.queue buf).1) :=
    h.books.handled (g := fun s => (s.queue buf).1) hframe.1 hframe.2.1 (hframe.2.2.trans (h.books.release i))
  have hsession : ((v.session i).send buf answers ok id).1 =
      match ((v.session i).queue buf).2 with
      | none => ((v.session i).queue buf).1
      | some sov => (SessionTCP.sendSov ok id answers ((v.session i).queue buf).1 sov).1 := SessionTCP.sendBuf_queue hon
  have hrun : ∀ k, (Server.send i buf answers ok accepts f k).run v =
      Prog.run (match ((v.session i).queue buf).2 with
        | none => k
        | some sov => Server.sendSov i ok accepts f answers sov k) (v.change i fun s => (s.queue buf).1) := by
    intro k
    unfold Server.send Server.sendBuf
    rw [Prog.run_test, if_neg (by rw [hon]; exact Bool.false_ne_true)]
    rfl
  cases hsov : ((v.session i).queue buf).2 with
  | none =>
    rw [hsov] at hsession hrun
    rw [hsession]
    exact ⟨_, hqueue, hrun⟩
  | some sov =>
    rw [hsov] at hsession hrun
    dsimp only at hsession hrun
    rw [hsession, hpost]
    refine ⟨_, hqueue.change (posted sov) rfl rfl rfl, fun k => ?_⟩
    rw [hrun, hprog, Prog.run_update]

theorem Ready.sendCall (h : Ready cnt hand v) (i : Nat) (buf : Option α) {answers : List (Option Nat)}
    (pends : answers.all Option.isNone = true) (ok : Bool) (accepts : List Bool) :
    ∃ v', Called cnt hand v v' ∧ ∀ k, (Server.send i buf answers ok accepts f k).run v = k.run v' := by
  by_cases hon : (v.session i).isConnected = true
  · obtain ⟨v', hv', hrun⟩ := h.send hon buf pends ok accepts
    refine ⟨v', hv'.called ⟨fun hoff => ?_, fun hs => hs.send SessionTCP.gentle_id buf answers ok⟩, hrun⟩
    rw [hon] at hoff
    cases hoff
  · refine ⟨v, Called.refl h.books, fun k => ?_⟩
    unfold Server.send Server.sendBuf
    rw [Prog.run_test, if_pos (by simpa using hon)]

end Server

mutual

/-- Only `disconnect(false)` is called, and the calls of Winsock succeed or pend. -/
def ServerCall.regular (cnt : Nat) : ServerCall α → Bool
  | .send _ _ answers ok onDisc accepts =>
    answers.all Option.isNone && ok && ServerCall.allRegular cnt onDisc && Server.enough cnt accepts
  | .disconnect _ isRelease onDisc accepts => !isRelease && ServerCall.allRegular cnt onDisc && Server.enough cnt accepts

def ServerCall.allRegular (cnt : Nat) : List (ServerCall α) → Bool
  | [] => true
  | c :: cs => c.regular cnt && ServerCall.allRegular cnt cs

end

namespace Server

variable {cnt : Nat}

mutual

theorem callback_call : ∀ c : ServerCall α, c.regular cnt = true → Callback cnt (call c)
  | .send i buf answers ok onDisc accepts, hc => by
    simp only [ServerCall.regular, Bool.and_eq_true] at hc
    intro hand v h
    simp only [call]
    exact h.sendCall i buf hc.1.1.1 ok accepts
  | .disconnect i isRelease onDisc accepts, hc => by
    simp only [ServerCall.regular, Bool.and_eq_true, Bool.not_eq_true'] at hc
    intro hand v h
    simp only [call, hc.1.1]
    exact Callback.disconnect (callback_calls onDisc hc.1.2) hc.2 h i

theorem callback_calls : ∀ cs : List (ServerCall α), ServerCall.allRegular cnt cs = true → Callback cnt (calls cs)
  | [], _ => by
    intro hand v h
    simp only [calls]
    exact ⟨v, Called.refl h.books, fun _ => rfl⟩
  | c :: cs, hcs => by
    simp only [ServerCall.allRegular, Bool.and_eq_true] at hcs
    intro hand v h
    obtain ⟨mid, hmid, hrun⟩ := callback_call c hcs.1 hand v h
    obtain ⟨v', hv', hrest⟩ := callback_calls cs hcs.2 hand mid (h.called hmid)
    refine ⟨v', hmid.trans hv', fun k => ?_⟩
    simp only [calls]
    rw [hrun, hrest]

end

end Server

end Ven
