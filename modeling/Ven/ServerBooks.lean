import Ven.Server

namespace Ven

open Locks

variable {α : Type}

namespace Server

variable {cnt hand : Nat} {v v' : Server α}

theorem change_self (i : Nat) (f : SessionTCP α → SessionTCP α) (v : Server α) :
    (v.change i f).session i = f (v.session i) := by
  unfold change
  exact Function.update_self _ _ _

theorem change_other {i j : Nat} (h : j ≠ i) (f : SessionTCP α → SessionTCP α) (v : Server α) :
    (v.change i f).session j = v.session j := by
  unfold change
  exact Function.update_of_ne h _ _

/-- One session changes, and the others have what they had. -/
theorem change_all {P : Nat → SessionTCP α → Prop} {i : Nat} {f : SessionTCP α → SessionTCP α} (self : P i (f (v.session i)))
    (others : ∀ j, j ≠ i → P j (v.session j)) (j : Nat) : P j ((v.change i f).session j) :=
  (Function.forall_update_iff v.session P).mpr ⟨self, others⟩ j

/-- Where the `cnt` slots and the sessions are, and what the counters say, while `on_event` holds `hand` slots. -/
structure Books (cnt hand : Nat) (v : Server α) : Prop where
  bound : cnt < 4294967296
  running : v.isRelease = false
  slots : v.apool.length + v.flying.length + hand = cnt
  accepting : v.acceptingCnt = v.flying.length + hand
  sessions : ∀ i, v.spool.free.count i + (v.flying.map Prod.snd).count i + v.accepted.count i =
    if i < v.spool.totalCnt then 1 else 0
  pooled : ∀ i, (v.session i).pooled + v.accepted.count i = 1
  server : ∀ i, (v.session i).isServer = true
  release : ∀ i, (v.session i).isRelease = false
  connected : v.connectedCnt = v.accepted.length
  total : v.spool.totalCnt < 4294967296
  max : v.spool.maxCnt < 4294967296

/-- No slot is idle, or the session pool gives at most `m` sessions. -/
def Idle (m : Nat) (v : Server α) : Prop := v.apool = [] ∨ v.spool.supply ≤ m

theorem Idle.mono {m : Nat} (h : Idle 0 v) : Idle m v := by
  rcases h with h | h
  · exact Or.inl h
  · exact Or.inr (by omega)

/-- A change of a session that the books do not see. -/
theorem Books.change (h : Books cnt hand v) {i : Nat} {f : SessionTCP α → SessionTCP α}
    (pooled : (f (v.session i)).pooled = (v.session i).pooled) (server : (f (v.session i)).isServer = (v.session i).isServer)
    (release : (f (v.session i)).isRelease = false) : Books cnt hand (v.change i f) := by
  refine ⟨h.bound, h.running, h.slots, h.accepting, h.sessions, ?_, ?_, ?_, h.connected, h.total, h.max⟩
  · refine change_all (P := fun j s => s.pooled + v.accepted.count j = 1) ?_ fun j _ => h.pooled j
    rw [pooled]
    exact h.pooled i
  · exact change_all (P := fun _ s => s.isServer = true) (server.trans (h.server i)) fun j _ => h.server j
  · exact change_all (P := fun _ s => s.isRelease = false) release fun j _ => h.release j

theorem length_le_total {total : Nat} {l : List Nat} (h : ∀ i, l.count i ≤ if i < total then 1 else 0) : l.length ≤ total := by
  have hone : ∀ i, l.count i ≤ (List.range total).count i := by
    intro i
    have hi := h i
    by_cases hlt : i < total
    · rw [if_pos hlt] at hi
      have hin : 0 < (List.range total).count i := List.count_pos_iff.mpr (List.mem_range.mpr hlt)
      omega
    · rw [if_neg hlt] at hi
      omega
  have hsub := List.subperm_ext_iff.mpr fun i _ => hone i
  simpa using hsub.length_le

/-- `pop` of the session pool takes a session that is free or new. -/
theorem Books.pop (h : Books cnt hand v) {i : Nat} {spool : SessionPool} (hpop : v.spool.pop = (some i, spool)) :
    spool.totalCnt < 4294967296 ∧ spool.maxCnt < 4294967296 ∧
      ∀ j, spool.free.count j + (v.flying.map Prod.snd).count j + v.accepted.count j + (if i = j then 1 else 0) =
        if j < spool.totalCnt then 1 else 0 := by
  rcases v.spool.pop_cases with ⟨k, free, hfree, heq⟩ | ⟨_, _, heq⟩ | ⟨hfree, hlt, _, _, hdiff, k, free, hnew, heq⟩
  · cases hpop.symm.trans heq
    refine ⟨h.total, h.max, fun j => ?_⟩
    have hj := h.sessions j
    rw [hfree, List.count_cons] at hj
    simp only [beq_iff_eq] at hj
    dsimp only
    omega
  · cases hpop.symm.trans heq
  · cases hpop.symm.trans heq
    have hmax := h.max
    refine ⟨?_, hmax, fun j => ?_⟩
    · dsimp only
      omega
    · have hj := h.sessions j
      have hcount : (List.range' v.spool.totalCnt v.spool.createCnt).count j = free.count j + if i = j then 1 else 0 := by
        rw [← List.count_reverse, hnew, List.count_cons]
        simp only [beq_iff_eq]
      have hnone : ¬(v.spool.totalCnt ≤ j ∧ j < v.spool.totalCnt + v.spool.createCnt) →
          (List.range' v.spool.totalCnt v.spool.createCnt).count j = 0 :=
        fun hout => List.count_eq_zero.mpr fun hmem => hout (List.mem_range'_1.mp hmem)
      have hone : v.spool.totalCnt ≤ j ∧ j < v.spool.totalCnt + v.spool.createCnt →
          (List.range' v.spool.totalCnt v.spool.createCnt).count j = 1 :=
        fun hin => List.count_eq_one_of_mem List.nodup_range' (List.mem_range'_1.mpr hin)
      rw [hfree, List.count_nil] at hj
      dsimp only
      by_cases hold : j < v.spool.totalCnt
      · rw [if_pos hold] at hj
        have hz := hnone (by omega)
        have hin : j < v.spool.totalCnt + v.spool.createCnt := by omega
        simp only [hin, if_true]
        omega
      · rw [if_neg hold] at hj
        by_cases hin : j < v.spool.totalCnt + v.spool.createCnt
        · have hc := hone (by omega)
          simp only [hin, if_true]
          omega
        · have hz := hnone (by omega)
          simp only [hin, if_false]
          omega

/-- `accept` takes a slot and a session, or finds no slot or no session. -/
theorem Books.accept (h : Books cnt hand v) : ∃ v', Books cnt hand v' ∧ v'.session = v.session ∧
    (v'.apool.length + 1 = v.apool.length ∧ v'.spool.supply + 1 = v.spool.supply ∧
        (∀ yes no, (Server.accept true yes no).run v = yes.run v') ∨
      Idle 0 v' ∧ ∀ yes no, (Server.accept true yes no).run v = no.run v') := by
  cases hpool : v.apool with
  | nil =>
    refine ⟨{ v with apool := [] }, ?_, rfl, Or.inr ⟨Or.inl rfl, fun yes no => ?_⟩⟩
    · refine ⟨h.bound, h.running, ?_, h.accepting, h.sessions, h.pooled, h.server, h.release, h.connected, h.total, h.max⟩
      have hslots := h.slots
      rw [hpool] at hslots
      exact hslots
    · simp [Server.accept, h.running, hpool]
  | cons aov apool =>
    have hslots := h.slots
    have hle := h.bound
    rw [hpool, List.length_cons] at hslots
    cases hpop : v.spool.pop with
    | mk session spool =>
      cases session with
      | none =>
        have hnone : v.spool.pop.1 = none := by rw [hpop]
        have hsame := SessionPool.pop_none hpop
        refine ⟨v, h, rfl, Or.inr ⟨Or.inr (Nat.le_of_eq (SessionPool.pop_eq_none.mp hnone)), fun yes no => ?_⟩⟩
        have hback : { v with apool := aov :: (aov :: apool).tail, spool := spool, isRelease := false } = v := by
          rw [hsame, List.tail_cons, ← hpool, ← h.running]
        simp only [Server.accept, Prog.run_test, h.running, Bool.false_eq_true, if_false, Prog.run_act, hpool, Prog.run_lock,
          hpop, Prog.run_unlock, Prog.run_update]
        exact congrArg no.run hback
      | some i =>
        obtain ⟨htotal, hmax, hsessions⟩ := h.pop hpop
        refine ⟨{ v with
          apool := apool
          spool := spool
          flying := (aov, i) :: v.flying
          acceptingCnt := add32 v.acceptingCnt 1 }, ?_, rfl, Or.inl ⟨rfl, SessionPool.supply_pop hpop, fun yes no => ?_⟩⟩
        · refine ⟨h.bound, h.running, ?_, ?_, fun j => ?_, h.pooled, h.server, h.release, h.connected, htotal, hmax⟩
          · dsimp only
            rw [List.length_cons]
            omega
          · have hacc := h.accepting
            dsimp only
            rw [List.length_cons, add32_of_lt (by omega)]
            omega
          · have hj := hsessions j
            dsimp only
            rw [List.map_cons, List.count_cons]
            simp only [beq_iff_eq]
            omega
        · simp [Server.accept, h.running, hpool, hpop]

/-- Each round of `accept_all` has an outcome, and every `AcceptEx` succeeds or pends. -/
def enough (cnt : Nat) (accepts : List Bool) : Bool := decide (cnt ≤ accepts.length) && accepts.all id

theorem Books.acceptLoop (h : Books cnt hand v) {accepts : List Bool} (pends : accepts.all id = true)
    (rounds : v.apool.length ≤ accepts.length) : ∃ v', Books cnt hand v' ∧ v'.session = v.session ∧ Idle 0 v' ∧
      ∀ k, (Server.acceptLoop accepts k).run v = k.run v' := by
  induction accepts generalizing v with
  | nil => exact ⟨v, h, rfl, Or.inl (List.eq_nil_of_length_eq_zero (Nat.le_zero.mp rounds)), fun _ => rfl⟩
  | cons answer accepts ih =>
    simp only [List.all_cons, id_eq, Bool.and_eq_true] at pends
    obtain ⟨hanswer, hpends⟩ := pends
    subst hanswer
    by_cases hempty : v.apool = []
    · refine ⟨v, h, rfl, Or.inl hempty, fun k => ?_⟩
      simp only [Server.acceptLoop, Prog.run_test, if_pos hempty]
    · obtain ⟨mid, hmid, hsession, ⟨hslot, _, hrun⟩ | ⟨hidle, hrun⟩⟩ := h.accept
      · rw [List.length_cons] at rounds
        obtain ⟨v', hv', hsession', hidle, hrest⟩ := ih hmid hpends (by omega)
        refine ⟨v', hv', hsession'.trans hsession, hidle, fun k => ?_⟩
        simp only [Server.acceptLoop, Prog.run_test, if_neg hempty]
        rw [hrun, hrest]
      · refine ⟨mid, hmid, hsession, hidle, fun k => ?_⟩
        simp only [Server.acceptLoop, Prog.run_test, if_neg hempty]
        rw [hrun]

/-- `accept_all` leaves no slot idle that a session could use. -/
theorem Books.acceptAll (h : Books cnt hand v) {accepts : List Bool} (full : enough cnt accepts = true) :
    ∃ v', Books cnt hand v' ∧ v'.session = v.session ∧ Idle 0 v' ∧ ∀ k, (Server.accept_all accepts k).run v = k.run v' := by
  unfold enough at full
  simp only [Bool.and_eq_true, decide_eq_true_eq] at full
  have hslots := h.slots
  obtain ⟨v', hv', hsession, hidle, hrun⟩ := h.acceptLoop full.2 (by omega)
  refine ⟨v', hv', hsession, hidle, fun k => ?_⟩
  simp only [Server.accept_all, Prog.run_test, h.running, Bool.false_eq_true, if_false]
  exact hrun k

/-- The end of `on_event` gives its slot back. -/
theorem Books.acceptNext (h : Books cnt (hand + 1) v) (idle : Idle 1 v) (aov : Nat) :
    ∃ v', Books cnt hand v' ∧ v'.session = v.session ∧ Idle 0 v' ∧
      ∀ k, (Server.acceptNext aov true k).run v = k.run v' := by
  let back : Server α := { v with acceptingCnt := pred32 v.acceptingCnt, apool := aov :: v.apool }
  have hback : Books cnt hand back := by
    refine ⟨h.bound, h.running, ?_, ?_, h.sessions, h.pooled, h.server, h.release, h.connected, h.total, h.max⟩
    · have hslots := h.slots
      change (aov :: v.apool).length + v.flying.length + hand = cnt
      rw [List.length_cons]
      omega
    · have hacc := h.accepting
      change pred32 v.acceptingCnt = v.flying.length + hand
      rw [pred32_of_pos (by omega)]
      omega
  obtain ⟨v', hv', hsession, ⟨hslot, hsupply, hrun⟩ | ⟨hidle, hrun⟩⟩ := hback.accept
  · refine ⟨v', hv', hsession, ?_, fun k => hrun k k⟩
    change v'.apool.length + 1 = (aov :: v.apool).length at hslot
    change v'.spool.supply + 1 = v.spool.supply at hsupply
    rw [List.length_cons] at hslot
    rcases idle with hnil | hle
    · rw [hnil] at hslot
      exact Or.inl (List.eq_nil_of_length_eq_zero (by simpa using hslot))
    · exact Or.inr (by omega)
  · exact ⟨v', hv', hsession, hidle, fun k => hrun k k⟩

/-- `disconnected` takes back a session that was accepted. -/
theorem Books.disconnected (h : Books cnt hand v) {i : Nat} (hpooled : (v.session i).pooled = 0) {accepts : List Bool}
    (full : enough cnt accepts = true) : ∃ v', Books cnt hand v' ∧ Idle 0 v' ∧
      v'.session = (v.change i fun s => { s with pooled := s.pooled + 1 }).session ∧
      ∀ k, (Server.disconnected i accepts k).run v = k.run v' := by
  have hone : v.accepted.count i = 1 := by
    have hi := h.pooled i
    omega
  have hin : i ∈ v.accepted := List.count_pos_iff.mp (by omega)
  have hlen := List.length_erase_of_mem hin
  have hpos := List.length_pos_of_mem hin
  let back : Server α :=
    { v.change i fun s => { s with pooled := s.pooled + 1 } with
      connectedCnt := pred32 v.connectedCnt
      spool := v.spool.push i
      accepted := v.accepted.erase i }
  have herase : ∀ j, (v.accepted.erase i).count j + (if i = j then 1 else 0) = v.accepted.count j := by
    intro j
    rw [List.count_erase]
    by_cases hj : i = j
    · subst hj
      simp [hone]
    · simp [hj]
  have hback : Books cnt hand back := by
    refine ⟨h.bound, h.running, h.slots, h.accepting, fun j => ?_, ?_, ?_, ?_, ?_, h.total, h.max⟩
    · have hj := h.sessions j
      have he := herase j
      change (i :: v.spool.free).count j + (v.flying.map Prod.snd).count j + (v.accepted.erase i).count j =
        if j < v.spool.totalCnt then 1 else 0
      rw [List.count_cons]
      simp only [beq_iff_eq]
      omega
    · refine change_all (P := fun j s => s.pooled + (v.accepted.erase i).count j = 1)
        (f := fun s => { s with pooled := s.pooled + 1 }) ?_ fun j hji => ?_
      · have he := herase i
        simp only [if_true] at he
        dsimp only
        omega
      · have hj := h.pooled j
        have he := herase j
        rw [if_neg (Ne.symm hji)] at he
        omega
    · exact change_all (P := fun _ s => s.isServer = true) (f := fun s => { s with pooled := s.pooled + 1 }) (h.server i) fun j _ => h.server j
    · exact change_all (P := fun _ s => s.isRelease = false) (f := fun s => { s with pooled := s.pooled + 1 }) (h.release i) fun j _ => h.release j
    · change pred32 v.connectedCnt = (v.accepted.erase i).length
      rw [h.connected, pred32_of_pos hpos, hlen]
  obtain ⟨v', hv', hsession, hidle, hrun⟩ := hback.acceptAll full
  exact ⟨v', hv', hidle, hsession, fun k => hrun k⟩

end Server

end Ven
