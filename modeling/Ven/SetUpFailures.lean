import Ven.ServerSlots

namespace Ven

open Locks

variable {α : Type}

namespace ServerEvent

/-- The same event where the accept context can be updated. -/
def withUpdate : ServerEvent α → ServerEvent α
  | .accept aov i err _ o onError pends => .accept aov i err true o onError pends
  | e => e

/-- `regular`, but the accept context may not be updated. -/
def permitted (cnt : Nat) (e : ServerEvent α) : Bool := e.withUpdate.regular cnt

/-- The session of an accepted connection whose accept context could not be updated. -/
def failedSetUp : ServerEvent α → Option Nat
  | .accept _ i err updated _ _ _ => if err = 0 ∧ updated = false then some i else none
  | _ => none

theorem failedSetUp_eq_some {e : ServerEvent α} {i : Nat} (h : e.failedSetUp = some i) :
    ∃ aov o onError pends, e = .accept aov i 0 false o onError pends := by
  cases e with
  | accept aov j err updated o onError pends =>
    by_cases hfails : err = 0 ∧ updated = false
    · rw [failedSetUp, if_pos hfails] at h
      cases Option.some.inj h
      exact ⟨aov, o, onError, pends, by rw [hfails.1, hfails.2]⟩
    · rw [failedSetUp, if_neg hfails] at h
      cases h
  | _ => cases h

/-- An `AcceptEx` comes back with an error. -/
def aborts : ServerEvent α → Bool
  | .accept _ _ err _ _ _ _ => err ≠ 0
  | _ => false

end ServerEvent

namespace Server

open SessionTCP (Touched Sound)

variable {cnt hand i : Nat} {v v' : Server α} {f : ServerProg α → ServerProg α}

/-- An operation of the session is outstanding. -/
def Outstanding (v : Server α) (i : Nat) : Prop :=
  (v.session i).recvs ≠ [] ∨ (v.session i).sends ≠ [] ∨ 0 < (v.session i).discs ∨ i ∈ v.flying.map Prod.snd

def failedSetUps (events : List (ServerEvent α)) : List Nat := events.filterMap ServerEvent.failedSetUp

/-- A connection is accepted, and its set-up fails. -/
theorem Settled.setUpFailed (h : Settled cnt v) {aov : Nat} (hin : (aov, i) ∈ v.flying) (o : ServerOpening α) :
    ∃ v', Stepped cnt (some i) v v' ∧ (v'.session i).Unpooled ∧
      (Server.on_accept_event aov i 0 false o [] true .done).run { v with flying := v.flying.erase (aov, i) } = v' := by
  obtain ⟨bare, hsound, _⟩ := h.taken hin
  obtain ⟨mid, hmid, hdisc⟩ := (h.books.taken hin).disconnectOff (f := calls o.onDisc) bare.off
  obtain ⟨v', hv', hsession, hrun⟩ := h.accepting hin hmid (hsound i)
  refine ⟨v', hv', hsession ▸ bare, ?_⟩
  have hstart : (Server.on_accept_event aov i 0 false o [] true .done).run { v with flying := v.flying.erase (aov, i) } =
      (Server.disconnect i false o.accepts (calls o.onDisc) (Server.acceptNext aov true .done)).run (v.taken aov i) := rfl
  rw [hstart, hdisc, hrun]
  rfl

theorem handle_withUpdate {e : ServerEvent α} (h : e.failedSetUp = none) : v.handle e = v.handle e.withUpdate := by
  cases e with
  | accept aov i err updated o onError pends =>
    have hprog : handler (.accept aov i err updated o onError pends) = handler (.accept aov i err true o onError pends) := by
      by_cases herr : err = 0
      · cases updated with
        | true => rfl
        | false =>
          rw [ServerEvent.failedSetUp, if_pos ⟨herr, rfl⟩] at h
          cases h
      · simp only [handler, on_accept_event, if_pos herr]
    unfold handle
    rw [hprog]
    rfl
  | _ => rfl

theorem Settled.permitted (h : Settled cnt v) {e : ServerEvent α} (permitted : e.permitted cnt = true)
    (hs : v.handle e = some v') : Stepped cnt e.session v v' ∧ ∀ i, e.failedSetUp = some i → (v'.session i).Unpooled := by
  cases hfailed : e.failedSetUp with
  | none =>
    have hsession : e.withUpdate.session = e.session := by cases e <;> rfl
    rw [handle_withUpdate hfailed] at hs
    refine ⟨?_, fun i hi => by cases hi⟩
    rw [← hsession]
    exact h.step permitted hs
  | some j =>
    obtain ⟨aov, o, onError, pends, he⟩ := ServerEvent.failedSetUp_eq_some hfailed
    subst he
    simp only [ServerEvent.permitted, ServerEvent.withUpdate, ServerEvent.regular, Bool.and_eq_true] at permitted
    have hpends := permitted.2
    subst hpends
    unfold handle at hs
    split at hs
    next => cases hs
    next =>
      obtain ⟨w, hw, hrun⟩ := Option.map_eq_some_iff.mp hs
      simp only [dequeue] at hw
      split at hw
      next hflying =>
        cases Option.some.inj hw
        obtain ⟨u, hu, hlost, hset⟩ := h.setUpFailed (List.contains_iff_mem.mp hflying) o
        have heq : u = v' := hset.symm.trans hrun
        rw [← heq]
        refine ⟨hu, fun k hk => ?_⟩
        cases Option.some.inj hk
        exact hlost
      next => cases hw

/-- No handler of a lost session runs. -/
theorem Settled.lost (h : Settled cnt v) {e : ServerEvent α} (hs : v.handle e = some v') {j : Nat} (lost : (v.session j).Unpooled) :
    e.session ≠ some j := by
  unfold handle at hs
  split at hs
  next => cases hs
  next =>
    obtain ⟨w, hw, _⟩ := Option.map_eq_some_iff.mp hs
    intro hj
    cases e with
    | call c => cases hj
    | accept aov i err updated o onError pends =>
      cases Option.some.inj hj
      simp only [dequeue] at hw
      split at hw
      next hflying =>
        have hone := h.books.pooled_flying (List.contains_iff_mem.mp hflying)
        rw [lost.pooled] at hone
        cases hone
      next => cases hw
    | disc i onDisc accepts =>
      cases Option.some.inj hj
      simp only [dequeue, lost.discs, lt_irrefl, if_false] at hw
      cases hw
    | recv i g err bytes packets bad fail ok onDisc accepts =>
      cases Option.some.inj hj
      simp only [dequeue, lost.recvs, List.not_mem_nil, if_false] at hw
      cases hw
    | send i sov g err answers ok onDisc accepts =>
      cases Option.some.inj hj
      simp only [dequeue, lost.sends, List.contains_nil, Bool.false_eq_true, if_false] at hw
      cases hw

/-- Along a run the server stays settled, a lost session stays lost, and every failed set-up loses one. -/
theorem Settled.exec (h : Settled cnt v) {events : List (ServerEvent α)} (permitted : ∀ e ∈ events, e.permitted cnt = true)
    (run : Machine.exec handle v events = some v') :
    Settled cnt v' ∧ (∀ j, (v.session j).Unpooled → (v'.session j).Unpooled) ∧ ∀ j ∈ failedSetUps events, (v'.session j).Unpooled := by
  induction events generalizing v with
  | nil =>
    cases Option.some.inj run
    exact ⟨h, fun _ lost => lost, fun j hj => by cases hj⟩
  | cons e events ih =>
    obtain ⟨mid, hs, run⟩ := Option.bind_eq_some_iff.mp run
    obtain ⟨hmid, hfails⟩ := h.permitted (permitted e List.mem_cons_self) hs
    obtain ⟨hend, hlater, hrest⟩ := ih hmid.settled (fun e he => permitted e (List.mem_cons_of_mem _ he)) run
    refine ⟨hend, fun j lost => hlater j ?_, fun j hj => ?_⟩
    · rw [(hmid.others j (h.lost hs lost)).off lost.off]
      exact lost
    · unfold failedSetUps at hj
      rw [List.filterMap_cons] at hj
      split at hj
      next => exact hrest j hj
      next k hk =>
        rcases List.mem_cons.mp hj with heq | hmem
        · subst heq
          exact hlater j (hfails j hk)
        · exact hrest j hmem

/-- The sessions that were created are free, in an `AcceptEx` or accepted. -/
theorem Books.total_length (h : Books cnt hand v) :
    v.spool.totalCnt = v.spool.free.length + v.flying.length + v.accepted.length := by
  have hperm : (v.spool.free ++ v.flying.map Prod.snd ++ v.accepted).Perm (List.range v.spool.totalCnt) := by
    refine List.perm_iff_count.mpr fun i => ?_
    rw [List.count_append, List.count_append, h.sessions i]
    split
    next hlt => exact (List.count_eq_one_of_mem List.nodup_range (List.mem_range.mpr hlt)).symm
    next hge => exact (List.count_eq_zero.mpr fun hmem => hge (List.mem_range.mp hmem)).symm
  have hlen := hperm.length_eq
  simp only [List.length_append, List.length_map, List.length_range] at hlen
  exact hlen.symm

/-- A lost session is still accepted, and nothing is outstanding on it. -/
theorem Books.lost (h : Books cnt hand v) (lost : (v.session i).Unpooled) :
    i ∈ v.accepted ∧ i ∉ v.spool.free ∧ ¬v.Outstanding i := by
  have hpooled := h.pooled i
  have hi := h.sessions i
  rw [lost.pooled] at hpooled
  have hle : (if i < v.spool.totalCnt then 1 else 0) ≤ 1 := by split <;> omega
  refine ⟨List.count_pos_iff.mp (by omega), List.count_eq_zero.mp (by omega), ?_⟩
  rintro (hrecvs | hsends | hdiscs | hflying)
  · exact hrecvs lost.recvs
  · exact hsends lost.sends
  · rw [lost.discs] at hdiscs
    exact lt_irrefl 0 hdiscs
  · exact List.count_eq_zero.mp (by omega) hflying

/-- Once the server is stopping, an `AcceptEx` that comes back only gives its session back. -/
theorem aborted_step {e : ServerEvent α} (hrelease : v.isRelease = true) (aborts : e.aborts = true)
    (hs : v.handle e = some v') : v'.isRelease = true ∧ v'.spool.totalCnt = v.spool.totalCnt ∧
      v'.spool.free.length + v'.flying.length = v.spool.free.length + v.flying.length := by
  cases e with
  | accept aov i err updated o onError pends =>
    have herr : err ≠ 0 := of_decide_eq_true aborts
    unfold handle at hs
    split at hs
    next => cases hs
    next =>
      obtain ⟨w, hw, hrun⟩ := Option.map_eq_some_iff.mp hs
      simp only [dequeue] at hw
      split at hw
      next hflying =>
        cases Option.some.inj hw
        have hin : (aov, i) ∈ v.flying := List.contains_iff_mem.mp hflying
        have hback : (handler (.accept aov i err updated o onError pends)).run { v with flying := v.flying.erase (aov, i) } =
            { v with
              flying := v.flying.erase (aov, i)
              spool := v.spool.push i
              acceptingCnt := pred32 v.acceptingCnt
              apool := aov :: v.apool } := by
          simp [handler, on_accept_event, herr, Server.refused, acceptNext, Server.accept, hrelease]
        rw [hback] at hrun
        have hlen := List.length_erase_of_mem hin
        have hpos := List.length_pos_of_mem hin
        rw [← hrun]
        refine ⟨hrelease, rfl, ?_⟩
        change (i :: v.spool.free).length + (v.flying.erase (aov, i)).length = _
        rw [List.length_cons]
        omega
      next => cases hw
  | _ => cases aborts

theorem aborted_exec {events : List (ServerEvent α)} (hrelease : v.isRelease = true) (aborts : ∀ e ∈ events, e.aborts = true)
    (run : Machine.exec handle v events = some v') : v'.spool.totalCnt = v.spool.totalCnt ∧
      v'.spool.free.length + v'.flying.length = v.spool.free.length + v.flying.length := by
  have hall := Machine.exec_invariant_along (G := fun _ e => e.aborts = true)
    (I := fun w => w.isRelease = true ∧ w.spool.totalCnt = v.spool.totalCnt ∧
      w.spool.free.length + w.flying.length = v.spool.free.length + v.flying.length) (by
      intro w e w' h he hs
      obtain ⟨hr, htotal, hlen⟩ := aborted_step h.1 he hs
      exact ⟨hr, htotal.trans h.2.1, hlen.trans h.2.2⟩)
    ⟨hrelease, rfl, rfl⟩ (Machine.along_of_forall (fun e he _ => aborts e he) v) run
  exact hall.2

/-- `connected_cnt_` counts the accepted sessions in every run. The session of a failed set-up is neither free nor has
it an operation outstanding, and so the stop finds all sessions free just when no set-up has failed. -/
theorem failed_set_ups_iff {acceptCnt preCnt incCnt maxCnt initCnt stepCnt arrCnt : Nat} (hcnt : acceptCnt < 4294967296)
    (hpre : preCnt < 4294967296) (hmax : maxCnt < 4294967296) {accepts : List Bool} (full : enough acceptCnt accepts = true)
    {events : List (ServerEvent α)} (permitted : ∀ e ∈ events, e.permitted acceptCnt = true)
    (run : Machine.exec handle (listening acceptCnt preCnt incCnt maxCnt initCnt stepCnt arrCnt accepts) events = some v) :
    v.connectedCnt = v.accepted.length ∧
    ((∀ i ∈ failedSetUps events, i ∈ v.spool.free ∨ v.Outstanding i) ↔ failedSetUps events = []) ∧
    ((∀ i ∈ v.accepted, i ∈ failedSetUps events) → ∀ aborted w, (∀ e ∈ aborted, e.aborts = true) →
      Machine.exec handle { v with isRelease := true } aborted = some w → w.flying = [] →
        (w.spool.totalCnt = w.spool.free.length ↔ failedSetUps events = [])) := by
  obtain ⟨settled, _, lost⟩ := (settled_listening hcnt hpre hmax full).exec permitted run
  have books := settled.books
  refine ⟨books.connected, ⟨fun h => ?_, fun hnone => ?_⟩, fun ended aborted w aborts stop empty => ?_⟩
  · refine List.eq_nil_iff_forall_not_mem.mpr fun i hi => ?_
    obtain ⟨_, hfree, hidle⟩ := books.lost (lost i hi)
    rcases h i hi with hin | hout
    · exact hfree hin
    · exact hidle hout
  · rw [hnone]
    intro i hi
    cases hi
  · obtain ⟨htotal, hlen⟩ := aborted_exec rfl aborts stop
    have hsum := books.total_length
    rw [empty, List.length_nil] at hlen
    dsimp only at htotal hlen
    refine ⟨fun hall => ?_, fun hnone => ?_⟩
    · have hz : v.accepted = [] := List.eq_nil_of_length_eq_zero (by omega)
      refine List.eq_nil_iff_forall_not_mem.mpr fun i hi => ?_
      have hin := (books.lost (lost i hi)).1
      rw [hz] at hin
      cases hin
    · have hz : v.accepted = [] := by
        refine List.eq_nil_iff_forall_not_mem.mpr fun i hi => ?_
        have hin := ended i hi
        rw [hnone] at hin
        cases hin
      rw [hz, List.length_nil] at hsum
      omega

/-- One slot and one session: a connection comes up and is closed by its peer. -/
def visited : List (ServerEvent Nat) :=
  [.accept 0 0 0 true ⟨[], none, true, [], []⟩ [] true, .recv 0 1 0 0 [] false none true [] [true], .disc 0 [] [true]]

theorem failed_set_ups_iff_sample :
    ∃ v w, Machine.exec handle (listening 1 1 0 1 4 1 3 [true]) visited = some v ∧ v.connectedCnt = v.accepted.length ∧
      Machine.exec handle { v with isRelease := true } [.accept 0 0 995 true ⟨[], none, true, [], []⟩ [] true] = some w ∧
      w.spool.totalCnt = w.spool.free.length := by
  have stopped : ((Machine.exec handle (listening 1 1 0 1 4 1 3 [true]) visited).bind fun v =>
      (Machine.exec handle { v with isRelease := true } [.accept 0 0 995 true ⟨[], none, true, [], []⟩ [] true]).map fun w =>
        (v.accepted, w.flying)) = some ([], []) := by decide +kernel
  obtain ⟨v, run, hv⟩ := Option.bind_eq_some_iff.mp stopped
  obtain ⟨w, stop, hw⟩ := Option.map_eq_some_iff.mp hv
  simp only [Prod.mk.injEq] at hw
  obtain ⟨haccepted, hflying⟩ := hw
  have permitted : ∀ e ∈ visited, e.permitted 1 = true := by decide +kernel
  obtain ⟨hconnected, _, hstop⟩ := failed_set_ups_iff (by decide) (by decide) (by decide) (by decide) permitted run
  have ended : ∀ i ∈ v.accepted, i ∈ failedSetUps visited := by
    rw [haccepted]
    intro i hi
    cases hi
  exact ⟨v, w, run, hconnected, stop, (hstop ended _ w (by decide) stop hflying).mpr rfl⟩

/-- The accept context of the only session cannot be updated. -/
theorem failed_set_up_loses :
    ∃ v : Server Nat, Machine.exec handle (listening 1 1 0 1 4 1 3 [true])
        [.accept 0 0 0 false ⟨[], none, true, [], []⟩ [] true] = some v ∧
      v.connectedCnt = 1 ∧ v.accepted = [0] ∧ ¬(0 ∈ v.spool.free ∨ v.Outstanding 0) ∧ v.flying = [] ∧
      v.spool.totalCnt ≠ v.spool.free.length := by
  have run : (Machine.exec handle (listening 1 1 0 1 4 1 3 [true] : Server Nat)
      [.accept 0 0 0 false ⟨[], none, true, [], []⟩ [] true]).map
        (fun v => (v.connectedCnt, v.accepted, v.flying, v.spool.free, v.spool.totalCnt)) = some (1, [0], [], [], 1) := by
    decide +kernel
  obtain ⟨v, run, hv⟩ := Option.map_eq_some_iff.mp run
  simp only [Prod.mk.injEq] at hv
  obtain ⟨hconnected, haccepted, hflying, hfree, htotal⟩ := hv
  obtain ⟨settled, _, lost⟩ := (settled_listening (by decide) (by decide) (by decide) (by decide)).exec (by decide) run
  obtain ⟨_, hgone, hidle⟩ := settled.books.lost (lost 0 (by decide))
  refine ⟨v, run, hconnected, haccepted, fun h => h.elim hgone hidle, hflying, ?_⟩
  rw [htotal, hfree]
  exact Nat.one_ne_zero

end Server

end Ven
