import Ven.AcceptSlots

namespace Ven

open Threads

/-- The `AOV` taken from `apool_` for an `AcceptEx` that is still to be called. -/
def AcceptPC.slot : AcceptPC → Option Nat
  | .popSession _ aov => some aov
  | .putBack aov => some aov
  | .acceptex _ aov _ => some aov
  | _ => none

/-- The `AOV` whose `AcceptEx` was called and whose `accepting_cnt_++` is to come. -/
def AcceptPC.counts : AcceptPC → Option Nat
  | .count _ aov => some aov
  | _ => none

namespace AcceptThread

/-- The `AOV` whose `on_event` runs. -/
def inEvent (th : AcceptThread) : Option Nat := th.event.map Prod.fst

/-- The same until `accepting_cnt_--`. -/
def awaited (th : AcceptThread) : Option Nat :=
  match th.event with
  | some (_, .pushSlot) => none
  | some (aov, _) => some aov
  | none => none

/-- The `AOV` whose `accepting_cnt_--` comes next. -/
def uncounts (th : AcceptThread) : Option Nat :=
  match th.pc, th.event with
  | .idle, some (aov, .uncount) => some aov
  | _, _ => none

def pushes (th : AcceptThread) : Bool :=
  match th.event with
  | some (_, .pushSlot) => true
  | _ => false

theorem inEvent_of_awaited {th : AcceptThread} {aov : Nat} (h : th.awaited = some aov) : th.inEvent = some aov := by
  unfold awaited at h
  unfold inEvent
  split at h
  next => cases h
  next he =>
    rw [he]
    exact h
  next => cases h

theorem event_none {th : AcceptThread} (hp : th.pushes = false) (ha : th.awaited = none) : th.event = none := by
  unfold pushes at hp
  unfold awaited at ha
  split at ha
  next he =>
    rw [he] at hp
    cases hp
  next => cases ha
  next he => exact he

end AcceptThread

/-- `1` for the `AOV` that is meant. -/
def one (o : Option Nat) (a : Nat) : Nat := if o = some a then 1 else 0

theorem one_none (a : Nat) : one none a = 0 := rfl

theorem one_self (a : Nat) : one (some a) a = 1 := if_pos rfl

theorem count_cons_one (a b : Nat) (l : List Nat) : (b :: l).count a = l.count a + one (some b) a := by
  rw [List.count_cons]
  unfold one
  by_cases h : b = a
  · simp [h]
  · simp [h]

namespace Acceptor

variable {n acceptCnt : Nat} {s s' : Acceptor n}

/-- `AcceptEx` never fails at once; no accept is uncounted before it is counted; when `uninit` reads that none is
left, no thread stands between an `AcceptEx` and its `accepting_cnt_++`, or between an `accepting_cnt_--` and the
`push` after it; and when it finds `apool_` empty, no thread holds a slot. -/
def Timely (s : Acceptor n) : AcceptOp n → Prop
  | .resume t pends =>
    ((s.thread t).pc.posts = true → pends = true) ∧
      ((s.thread t).uncounts ≠ none → ∀ u, (s.thread u).pc.counts ≠ (s.thread t).uncounts)
  | .uninit =>
    (s.uninit = .wait → s.acceptingCnt = 0 → ∀ u, (s.thread u).pc.counts = none ∧ (s.thread u).pushes = false) ∧
      (s.uninit = .drain → s.apool = [] → ∀ u, (s.thread u).pc.slot = none)
  | _ => True

/-- `accepting_cnt_` is not lowered below zero, and `uninit` leaves its loop only when no `AcceptEx` is
outstanding and no thread is in `on_event`. -/
def Waits (s : Acceptor n) : AcceptOp n → Prop
  | .resume t _ => (s.thread t).uncounts ≠ none → 0 < s.acceptingCnt
  | .uninit => s.uninit = .wait → s.acceptingCnt = 0 → s.flying = [] ∧ ∀ t, (s.thread t).event = none
  | _ => True

instance (s : Acceptor n) : (op : AcceptOp n) → Decidable (s.Timely op)
  | .resume t pends => inferInstanceAs (Decidable (((s.thread t).pc.posts = true → pends = true) ∧
      ((s.thread t).uncounts ≠ none → ∀ u, (s.thread u).pc.counts ≠ (s.thread t).uncounts)))
  | .uninit => inferInstanceAs (Decidable
      ((s.uninit = .wait → s.acceptingCnt = 0 → ∀ u, (s.thread u).pc.counts = none ∧ (s.thread u).pushes = false) ∧
        (s.uninit = .drain → s.apool = [] → ∀ u, (s.thread u).pc.slot = none)))
  | .acceptAll _ => isTrue trivial
  | .accept _ => isTrue trivial
  | .disconnected _ _ => isTrue trivial
  | .complete _ _ _ _ => isTrue trivial

instance (s : Acceptor n) : (op : AcceptOp n) → Decidable (s.Waits op)
  | .resume t _ => inferInstanceAs (Decidable ((s.thread t).uncounts ≠ none → 0 < s.acceptingCnt))
  | .uninit => inferInstanceAs (Decidable
      (s.uninit = .wait → s.acceptingCnt = 0 → s.flying = [] ∧ ∀ t, (s.thread t).event = none))
  | .acceptAll _ => isTrue trivial
  | .accept _ => isTrue trivial
  | .disconnected _ _ => isTrue trivial
  | .complete _ _ _ _ => isTrue trivial

/-- Where the slot `a` is. -/
def places (s : Acceptor n) (a : Nat) : Nat :=
  s.apool.count a + (s.flying.map Prod.fst).count a + total (fun th => one th.pc.slot a) s.thread +
    total (fun th => one th.inEvent a) s.thread + s.deleted.count a

/-- The `AcceptEx`s of the slot `a` that `accepting_cnt_` should count. -/
def posted (s : Acceptor n) (a : Nat) : Nat :=
  (s.flying.map Prod.fst).count a + total (fun th => one th.awaited a) s.thread

def counting (s : Acceptor n) (a : Nat) : Nat := total (fun th => one th.pc.counts a) s.thread

/-- `accepting_cnt_` is the number of `AcceptEx`s that were counted and not uncounted. -/
structure Accounted (acceptCnt : Nat) (s : Acceptor n) : Prop where
  slots : ∀ a, s.places a = (List.range acceptCnt).count a
  counter : ∃ counted : Finset Nat, s.acceptingCnt = counted.card ∧ ∀ a, a ∈ counted ↔ 0 < s.posted a ∧ s.counting a = 0
  counting : ∀ a, s.counting a ≤ s.posted a
  closed : s.uninit = .wait ∨ s.uninit = .drain ∨ s.uninit = .left → s.isOpen = false
  drained : s.uninit = .drain ∨ s.uninit = .left →
    s.flying = [] ∧ ∀ t, (s.thread t).event = none ∧ (s.thread t).pc.counts = none
  left : s.uninit = .left → s.apool = [] ∧ ∀ t, (s.thread t).pc.slot = none

theorem posted_le_places (s : Acceptor n) (a : Nat) :
    s.posted a + total (fun th => one th.pc.slot a) s.thread ≤ s.places a := by
  have hle : total (fun th => one th.awaited a) s.thread ≤ total (fun th => one th.inEvent a) s.thread := by
    refine total_mono fun t => ?_
    unfold one
    by_cases h : (s.thread t).awaited = some a
    · rw [if_pos h, if_pos (AcceptThread.inEvent_of_awaited h)]
    · rw [if_neg h]
      exact Nat.zero_le _
  unfold posted places
  omega

theorem Accounted.posted_le (h : Accounted acceptCnt s) (a : Nat) :
    s.posted a + total (fun th => one th.pc.slot a) s.thread ≤ 1 := by
  refine le_trans (s.posted_le_places a) ?_
  rw [h.slots a]
  exact List.nodup_iff_count_le_one.mp List.nodup_range a

theorem Accounted.card_le (h : Accounted acceptCnt s) {counted : Finset Nat} (hc : ∀ a ∈ counted, 0 < s.posted a) :
    counted.card ≤ acceptCnt := by
  have hsub : counted ⊆ Finset.range acceptCnt := by
    intro a ha
    have hpos : 0 < (List.range acceptCnt).count a := by
      rw [← h.slots a]
      have hpos := hc a ha
      have hle := s.posted_le_places a
      omega
    rw [Finset.mem_range]
    exact List.mem_range.mp (List.count_pos_iff.mp hpos)
  exact le_trans (Finset.card_le_card hsub) (le_of_eq (Finset.card_range acceptCnt))

/-- What a step of thread `t` does to the places of the slots. -/
theorem places_update {t : Fin n} {th : AcceptThread} (ht : s'.thread = Function.update s.thread t th) (a : Nat) :
    s'.places a + (s.apool.count a + (s.flying.map Prod.fst).count a + one (s.thread t).pc.slot a +
      one (s.thread t).inEvent a + s.deleted.count a) =
    s.places a + (s'.apool.count a + (s'.flying.map Prod.fst).count a + one th.pc.slot a + one th.inEvent a +
      s'.deleted.count a) := by
  have hslot := total_update (fun th => one th.pc.slot a) s.thread t th
  have hevent := total_update (fun th => one th.inEvent a) s.thread t th
  unfold places
  rw [ht]
  omega

theorem posted_update {t : Fin n} {th : AcceptThread} (ht : s'.thread = Function.update s.thread t th) (a : Nat) :
    s'.posted a + ((s.flying.map Prod.fst).count a + one (s.thread t).awaited a) =
      s.posted a + ((s'.flying.map Prod.fst).count a + one th.awaited a) := by
  have hawaited := total_update (fun th => one th.awaited a) s.thread t th
  unfold posted
  rw [ht]
  omega

theorem counting_update {t : Fin n} {th : AcceptThread} (ht : s'.thread = Function.update s.thread t th) (a : Nat) :
    s'.counting a + one (s.thread t).pc.counts a = s.counting a + one th.pc.counts a := by
  have hcounts := total_update (fun th => one th.pc.counts a) s.thread t th
  unfold Acceptor.counting
  rw [ht]
  omega

/-- A step of one thread that moves at most its own slot and does not touch `accepting_cnt_`. -/
theorem Accounted.moved (h : Accounted acceptCnt s) {t : Fin n} {th : AcceptThread}
    (ht : s'.thread = Function.update s.thread t th) (huninit : s'.uninit = s.uninit) (hopen : s'.isOpen = s.isOpen)
    (hdeleted : s'.deleted = s.deleted) (hcnt : s'.acceptingCnt = s.acceptingCnt)
    (slots : ∀ a, s'.apool.count a + (s'.flying.map Prod.fst).count a + one th.pc.slot a + one th.inEvent a =
      s.apool.count a + (s.flying.map Prod.fst).count a + one (s.thread t).pc.slot a + one (s.thread t).inEvent a)
    (posted : ∀ a, (s'.flying.map Prod.fst).count a + one th.awaited a =
      (s.flying.map Prod.fst).count a + one (s.thread t).awaited a)
    (counts : th.pc.counts = (s.thread t).pc.counts)
    (drained : s.flying = [] → (s.thread t).event = none → s'.flying = [] ∧ th.event = none)
    (left : s.apool = [] → (s.thread t).event = none → (s.thread t).pc.slot = none → s'.apool = [] ∧ th.pc.slot = none) :
    Accounted acceptCnt s' := by
  have hposted : ∀ a, s'.posted a = s.posted a := by
    intro a
    have hp := posted_update ht a
    have hl := posted a
    omega
  have hcounting : ∀ a, s'.counting a = s.counting a := by
    intro a
    have hc := counting_update ht a
    rw [counts] at hc
    omega
  refine ⟨fun a => ?_, ?_, fun a => ?_, ?_, fun hd => ?_, fun hl => ?_⟩
  · rw [← h.slots a]
    have hp := places_update ht a
    have hl := slots a
    rw [hdeleted] at hp
    omega
  · obtain ⟨counted, hcard, hmem⟩ := h.counter
    refine ⟨counted, hcnt.trans hcard, fun a => ?_⟩
    rw [hposted, hcounting]
    exact hmem a
  · rw [hposted, hcounting]
    exact h.counting a
  · rw [huninit, hopen]
    exact h.closed
  · rw [huninit] at hd
    obtain ⟨hflying, hthreads⟩ := h.drained hd
    obtain ⟨hflying', hevent⟩ := drained hflying (hthreads t).1
    refine ⟨hflying', fun u => ?_⟩
    rw [ht]
    by_cases hu : u = t
    · subst hu
      rw [Function.update_self]
      exact ⟨hevent, counts.trans (hthreads u).2⟩
    · rw [Function.update_of_ne hu]
      exact hthreads u
  · rw [huninit] at hl
    obtain ⟨hapool, hslots⟩ := h.left hl
    obtain ⟨hapool', hslot⟩ := left hapool ((h.drained (Or.inr hl)).2 t).1 (hslots t)
    refine ⟨hapool', fun u => ?_⟩
    rw [ht]
    by_cases hu : u = t
    · subst hu
      rw [Function.update_self]
      exact hslot
    · rw [Function.update_of_ne hu]
      exact hslots u

/-- `AcceptEx` is called. -/
theorem Accounted.acceptex (h : Accounted acceptCnt s) {t : Fin n} {event : Option (Nat × EventPC)} {all : Bool} {aov i : Nat}
    (hth : s.thread t = ⟨event, .acceptex all aov i⟩) (ht : s'.thread = Function.update s.thread t ⟨event, .count all aov⟩)
    (hflying : s'.flying = (aov, i) :: s.flying) (hapool : s'.apool = s.apool) (hdeleted : s'.deleted = s.deleted)
    (hcnt : s'.acceptingCnt = s.acceptingCnt) (huninit : s'.uninit = s.uninit) (hopen : s.isOpen = true) :
    Accounted acceptCnt s' := by
  have running : ¬(s'.uninit = .wait ∨ s'.uninit = .drain ∨ s'.uninit = .left) := by
    intro hstopped
    rw [huninit] at hstopped
    rw [h.closed hstopped] at hopen
    cases hopen
  have hfly : ∀ a, (s'.flying.map Prod.fst).count a = (s.flying.map Prod.fst).count a + one (some aov) a := by
    intro a
    rw [hflying, List.map_cons, count_cons_one]
  have hposted : ∀ a, s'.posted a = s.posted a + one (some aov) a := by
    intro a
    have hp := posted_update ht a
    rw [hfly, hth] at hp
    change s'.posted a + (_ + one (AcceptThread.awaited ⟨event, .count all aov⟩) a) = _ at hp
    omega
  have hcounting : ∀ a, s'.counting a = s.counting a + one (some aov) a := by
    intro a
    have hc := counting_update ht a
    rw [hth] at hc
    exact hc
  have hheld : ∀ a, one (some aov) a ≤ total (fun th => one th.pc.slot a) s.thread := by
    intro a
    have hle := le_total (fun th : AcceptThread => one th.pc.slot a) s.thread t
    rw [hth] at hle
    exact hle
  refine ⟨fun a => ?_, ?_, fun a => ?_, fun hstopped => absurd hstopped running, fun hd => absurd (Or.inr hd) running,
    fun hl => absurd (Or.inr (Or.inr hl)) running⟩
  · rw [← h.slots a]
    have hp := places_update ht a
    rw [hfly, hth, hapool, hdeleted] at hp
    simp only [AcceptThread.inEvent, AcceptPC.slot, one_none] at hp
    omega
  · obtain ⟨counted, hcard, hmem⟩ := h.counter
    refine ⟨counted, hcnt.trans hcard, fun a => ?_⟩
    have hle := h.posted_le a
    have hat := hheld a
    rw [hmem a, hposted, hcounting]
    omega
  · rw [hposted, hcounting]
    exact Nat.add_le_add_right (h.counting a) _

/-- `accepting_cnt_++`. -/
theorem Accounted.count (h : Accounted acceptCnt s) (bound : acceptCnt < 4294967296) {t : Fin n}
    {event : Option (Nat × EventPC)} {all : Bool} {aov : Nat} {pc : AcceptPC} (hth : s.thread t = ⟨event, .count all aov⟩)
    (ht : s'.thread = Function.update s.thread t ⟨event, pc⟩) (hslot : pc.slot = none) (hcounts : pc.counts = none)
    (hflying : s'.flying = s.flying) (hapool : s'.apool = s.apool) (hdeleted : s'.deleted = s.deleted)
    (hcnt : s'.acceptingCnt = add32 s.acceptingCnt 1) (huninit : s'.uninit = s.uninit) (hopen : s'.isOpen = s.isOpen) :
    Accounted acceptCnt s' := by
  have running : ¬(s'.uninit = .drain ∨ s'.uninit = .left) := by
    intro hd
    rw [huninit] at hd
    have hnone := ((h.drained hd).2 t).2
    rw [hth] at hnone
    cases hnone
  have hposted : ∀ a, s'.posted a = s.posted a := by
    intro a
    have hp := posted_update ht a
    rw [hth, hflying] at hp
    exact Nat.add_right_cancel hp
  have hcounting : ∀ a, s'.counting a + one (some aov) a = s.counting a := by
    intro a
    have hc := counting_update ht a
    rw [hth, hcounts] at hc
    exact hc
  refine ⟨fun a => ?_, ?_, fun a => ?_, ?_, fun hd => absurd hd running, fun hl => absurd (Or.inr hl) running⟩
  · rw [← h.slots a]
    have hp := places_update ht a
    rw [hth, hslot, hflying, hapool, hdeleted] at hp
    exact Nat.add_right_cancel hp
  · obtain ⟨counted, hcard, hmem⟩ := h.counter
    have haov := hcounting aov
    have hle := h.counting aov
    have hone := h.posted_le aov
    rw [one_self] at haov
    have hnew : aov ∉ counted := fun ha => by
      have hz := ((hmem aov).mp ha).2
      omega
    have hmem' : ∀ a, a ∈ insert aov counted ↔ 0 < s'.posted a ∧ s'.counting a = 0 := by
      intro a
      rw [Finset.mem_insert, hposted]
      by_cases ha : a = aov
      · subst ha
        simp only [true_or, true_iff]
        omega
      · have hc := hcounting a
        have hz : one (some aov) a = 0 := if_neg fun heq => ha (Option.some.inj heq).symm
        rw [hmem a]
        omega
    have hsucc : (insert aov counted).card = s.acceptingCnt + 1 := by rw [Finset.card_insert_of_notMem hnew, hcard]
    have hcard' : (insert aov counted).card ≤ acceptCnt := by
      refine h.card_le fun a ha => ?_
      rw [← hposted a]
      exact ((hmem' a).mp ha).1
    refine ⟨insert aov counted, ?_, hmem'⟩
    rw [hcnt, add32_of_lt (by omega), hsucc]
  · rw [hposted]
    have hc := hcounting a
    have hle := h.counting a
    omega
  · rw [huninit, hopen]
    exact h.closed

/-- `accepting_cnt_--`. -/
theorem Accounted.uncount (h : Accounted acceptCnt s) {t : Fin n} {aov : Nat}
    (hth : s.thread t = ⟨some (aov, .uncount), .idle⟩) (counted : ∀ u, (s.thread u).pc.counts ≠ some aov)
    (ht : s'.thread = Function.update s.thread t ⟨some (aov, .pushSlot), .idle⟩)
    (hflying : s'.flying = s.flying) (hapool : s'.apool = s.apool) (hdeleted : s'.deleted = s.deleted)
    (hcnt : s'.acceptingCnt = pred32 s.acceptingCnt) (huninit : s'.uninit = s.uninit) (hopen : s'.isOpen = s.isOpen) :
    0 < s.acceptingCnt ∧ Accounted acceptCnt s' := by
  have running : ¬(s'.uninit = .drain ∨ s'.uninit = .left) := by
    intro hd
    rw [huninit] at hd
    have hnone := ((h.drained hd).2 t).1
    rw [hth] at hnone
    cases hnone
  have hposted : ∀ a, s'.posted a + one (some aov) a = s.posted a := by
    intro a
    have hp := posted_update ht a
    rw [hth, hflying] at hp
    simp only [AcceptThread.awaited, one_none] at hp
    omega
  have hcounting : ∀ a, s'.counting a = s.counting a := by
    intro a
    have hc := counting_update ht a
    rw [hth] at hc
    exact hc
  have hz : s.counting aov = 0 := total_eq_zero fun u => if_neg (counted u)
  have haov := hposted aov
  rw [one_self] at haov
  obtain ⟨kept, hcard, hmem⟩ := h.counter
  have hin : aov ∈ kept := (hmem aov).mpr ⟨by omega, hz⟩
  have hpos : 0 < s.acceptingCnt := by
    rw [hcard]
    exact Finset.card_pos.mpr ⟨aov, hin⟩
  refine ⟨hpos, fun a => ?_, ⟨kept.erase aov, ?_, fun a => ?_⟩, fun a => ?_, ?_, fun hd => absurd hd running,
    fun hl => absurd (Or.inr hl) running⟩
  · rw [← h.slots a]
    have hp := places_update ht a
    rw [hth, hflying, hapool, hdeleted] at hp
    exact Nat.add_right_cancel hp
  · rw [hcnt, pred32_of_pos hpos, Finset.card_erase_of_mem hin, hcard]
  · rw [Finset.mem_erase, hmem a, hcounting]
    have hle := h.posted_le a
    have hp := hposted a
    by_cases ha : a = aov
    · subst ha
      simp only [ne_eq, not_true_eq_false, false_and, false_iff]
      omega
    · have hne : one (some aov) a = 0 := if_neg fun heq => ha (Option.some.inj heq).symm
      rw [hne] at hp
      simp only [ne_eq, ha, not_false_eq_true, true_and]
      omega
  · rw [hcounting]
    have hp := hposted a
    have hle := h.counting a
    by_cases ha : a = aov
    · subst ha
      omega
    · have hne : one (some aov) a = 0 := if_neg fun heq => ha (Option.some.inj heq).symm
      omega
  · rw [huninit, hopen]
    exact h.closed

theorem awaited_none (h : ∀ a, s.posted a = 0) : s.flying = [] ∧ ∀ t, (s.thread t).awaited = none := by
  constructor
  · cases hf : s.flying with
    | nil => rfl
    | cons p flying =>
      have hz := h p.1
      unfold posted at hz
      rw [hf, List.map_cons, List.count_cons_self] at hz
      omega
  · intro t
    cases ha : (s.thread t).awaited with
    | none => rfl
    | some aov =>
      have hz := h aov
      have hle := le_total (fun th : AcceptThread => one th.awaited aov) s.thread t
      rw [ha, one_self] at hle
      unfold posted at hz
      omega

theorem Accounted.stop (h : Accounted acceptCnt s) (timely : s.Timely .uninit) (hs : s.stop = some s') :
    s.Waits .uninit ∧ Accounted acceptCnt s' := by
  obtain ⟨hwait, hdrain⟩ := timely
  cases stop_cases hs with
  | release hu =>
    refine ⟨fun hw => absurd (hu.symm.trans hw) nofun, ⟨h.slots, h.counter, h.counting, ?_, ?_, nofun⟩⟩
    · rintro (hc | hc | hc) <;> cases hc
    · rintro (hc | hc) <;> cases hc
  | close hu =>
    refine ⟨fun hw => absurd (hu.symm.trans hw) nofun, ⟨h.slots, h.counter, h.counting, fun _ => rfl, ?_, nofun⟩⟩
    rintro (hc | hc) <;> cases hc
  | wait hu =>
    have hclosed := h.closed (Or.inl hu)
    have idle : s.acceptingCnt = 0 → s.flying = [] ∧ ∀ t, (s.thread t).event = none ∧ (s.thread t).pc.counts = none := by
      intro hz
      have hthreads := hwait hu hz
      obtain ⟨counted, hcard, hmem⟩ := h.counter
      have hcounted : counted = ∅ := Finset.card_eq_zero.mp (hcard.symm.trans hz)
      have hposted : ∀ a, s.posted a = 0 := by
        intro a
        have hcounting : s.counting a = 0 := total_eq_zero fun u => by
          rw [(hthreads u).1]
          exact one_none a
        by_contra hne
        have hin : a ∈ counted := (hmem a).mpr ⟨Nat.pos_of_ne_zero hne, hcounting⟩
        rw [hcounted] at hin
        exact absurd hin (Finset.notMem_empty a)
      obtain ⟨hflying, hawaited⟩ := awaited_none hposted
      exact ⟨hflying, fun t => ⟨AcceptThread.event_none (hthreads t).2 (hawaited t), (hthreads t).1⟩⟩
    refine ⟨fun _ hz => ⟨(idle hz).1, fun t => ((idle hz).2 t).1⟩, ⟨h.slots, h.counter, h.counting, fun _ => hclosed, ?_, ?_⟩⟩
    · intro hd
      by_cases hz : s.acceptingCnt = 0
      · exact idle hz
      · simp only [ne_eq, hz, not_false_eq_true, if_true] at hd
        rcases hd with hd | hd <;> cases hd
    · intro hl
      split at hl <;> cases hl
  | drained hu hempty =>
    have hdrained := h.drained (Or.inl hu)
    exact ⟨fun hw => absurd (hu.symm.trans hw) nofun, ⟨h.slots, h.counter, h.counting,
      fun _ => h.closed (Or.inr (Or.inl hu)), fun _ => hdrained, fun _ => ⟨hempty, hdrain hu hempty⟩⟩⟩
  | delete hu pool =>
    refine ⟨fun hw => absurd (hu.symm.trans hw) nofun, ?_⟩
    refine ⟨fun a => ?_, h.counter, h.counting, h.closed, h.drained, fun hl => absurd (hu.symm.trans hl) nofun⟩
    rw [← h.slots a]
    unfold places
    dsimp only
    rw [pool, count_cons_one, count_cons_one]
    omega

/-- A step of `disconnected`, `accept_all` or `accept` that moves no slot. -/
theorem Accounted.quiet (h : Accounted acceptCnt s) {t : Fin n} {event : Option (Nat × EventPC)} {pc : AcceptPC}
    (hth : s.thread t = ⟨event, pc⟩) (pc' : AcceptPC) (ht : s'.thread = Function.update s.thread t ⟨event, pc'⟩)
    (hslot : pc'.slot = pc.slot) (hcounts : pc'.counts = pc.counts) (huninit : s'.uninit = s.uninit)
    (hopen : s'.isOpen = s.isOpen) (hdeleted : s'.deleted = s.deleted) (hcnt : s'.acceptingCnt = s.acceptingCnt)
    (hflying : s'.flying = s.flying) (hapool : s'.apool = s.apool) : Accounted acceptCnt s' := by
  refine h.moved ht huninit hopen hdeleted hcnt (fun a => ?_) (fun a => ?_) ?_ (fun hf he => ?_) (fun ha _ hsl => ?_)
  · rw [hth, hflying, hapool, hslot]
    rfl
  · rw [hth, hflying]
    rfl
  · rw [hth]
    exact hcounts
  · rw [hth] at he
    exact ⟨hflying.trans hf, he⟩
  · rw [hth] at hsl
    exact ⟨hapool.trans ha, hslot.trans hsl⟩

theorem Accounted.popSlot (h : Accounted acceptCnt s) {t : Fin n} {event : Option (Nat × EventPC)} {all : Bool} {aov : Nat}
    {apool : List Nat} (hth : s.thread t = ⟨event, .popSlot all⟩) (hpool : s.apool = aov :: apool) :
    Accounted acceptCnt { s.move t ⟨event, .popSession all aov⟩ with apool := apool } := by
  refine h.moved (t := t) rfl rfl rfl rfl rfl (fun a => ?_) (fun a => ?_) ?_ (fun hf he => ?_) (fun ha => ?_)
  · rw [hth, hpool, count_cons_one]
    simp only [AcceptPC.slot, AcceptThread.inEvent, one_none]
    change apool.count a + (s.flying.map Prod.fst).count a + _ + _ = _
    omega
  · rw [hth]
    rfl
  · rw [hth]
    rfl
  · rw [hth] at he
    exact ⟨hf, he⟩
  · rw [hpool] at ha
    cases ha

theorem Accounted.putBack (h : Accounted acceptCnt s) {t : Fin n} {event : Option (Nat × EventPC)} {aov : Nat}
    (hth : s.thread t = ⟨event, .putBack aov⟩) :
    Accounted acceptCnt { s.move t ⟨event, .idle⟩ with apool := aov :: s.apool } := by
  refine h.moved (t := t) rfl rfl rfl rfl rfl (fun a => ?_) (fun a => ?_) ?_ (fun hf he => ?_) (fun _ _ hsl => ?_)
  · rw [hth, count_cons_one]
    simp only [AcceptPC.slot, AcceptThread.inEvent, one_none]
    change _ + (s.flying.map Prod.fst).count a + 0 + _ = _
    omega
  · rw [hth]
    rfl
  · rw [hth]
    rfl
  · rw [hth] at he
    exact ⟨hf, he⟩
  · rw [hth] at hsl
    cases hsl

theorem Accounted.resumePC (h : Accounted acceptCnt s) (bound : acceptCnt < 4294967296) {t : Fin n}
    {event : Option (Nat × EventPC)} {pc : AcceptPC} {pends : Bool} (hth : s.thread t = ⟨event, pc⟩)
    (hpends : pc.posts = true → pends = true) (hs : s.resumePC t event pends pc = some s') : Accounted acceptCnt s' := by
  cases pc with
  | idle => cases hs
  | disconnected i =>
    cases Option.some.inj hs
    exact h.quiet hth (.giveBack i) rfl rfl rfl rfl rfl rfl rfl rfl rfl
  | giveBack i =>
    cases Option.some.inj hs
    exact h.quiet hth .acceptAll rfl rfl rfl rfl rfl rfl rfl rfl rfl
  | acceptAll =>
    cases Option.some.inj hs
    refine h.quiet hth _ rfl ?_ ?_ rfl rfl rfl rfl rfl rfl
    · split <;> rfl
    · split <;> rfl
  | look =>
    cases Option.some.inj hs
    refine h.quiet hth _ rfl ?_ ?_ rfl rfl rfl rfl rfl rfl
    · split <;> rfl
    · split <;> rfl
  | accept all =>
    cases Option.some.inj hs
    refine h.quiet hth _ rfl ?_ ?_ rfl rfl rfl rfl rfl rfl
    · split <;> rfl
    · split <;> rfl
  | popSlot all =>
    rcases popSlot_cases hs with ⟨_, rfl⟩ | ⟨aov, apool, hpool, rfl⟩
    · exact h.quiet hth .idle rfl rfl rfl rfl rfl rfl rfl rfl rfl
    · exact h.popSlot hth hpool
  | popSession all aov =>
    rcases popSession_cases hs with ⟨_, rfl⟩ | ⟨i, spool, _, rfl⟩
    · exact h.quiet hth (.putBack aov) rfl rfl rfl rfl rfl rfl rfl rfl rfl
    · exact h.quiet hth (.acceptex all aov i) rfl rfl rfl rfl rfl rfl rfl rfl rfl
  | putBack aov =>
    cases Option.some.inj hs
    exact h.putBack hth
  | acceptex all aov i =>
    rcases acceptex_cases hs with ⟨_, hopen, rfl⟩ | ⟨hfails, _⟩
    · exact h.acceptex hth rfl rfl rfl rfl rfl rfl hopen
    · rw [hpends rfl] at hfails
      cases hfails
  | count all aov =>
    cases Option.some.inj hs
    refine h.count bound hth rfl ?_ ?_ rfl rfl rfl rfl rfl rfl
    · split <;> rfl
    · split <;> rfl

theorem Accounted.resumeEvent (h : Accounted acceptCnt s) {t : Fin n} {aov : Nat} {e : EventPC}
    (hth : s.thread t = ⟨some (aov, e), .idle⟩)
    (timely : (s.thread t).uncounts ≠ none → ∀ u, (s.thread u).pc.counts ≠ (s.thread t).uncounts) :
    ((s.thread t).uncounts ≠ none → 0 < s.acceptingCnt) ∧ Accounted acceptCnt (s.resumeEvent t aov e) := by
  have inside : ∀ (e' : EventPC) {t' : Acceptor n}, t'.thread = Function.update s.thread t ⟨some (aov, e'), .idle⟩ →
      AcceptThread.awaited ⟨some (aov, e'), .idle⟩ = AcceptThread.awaited ⟨some (aov, e), .idle⟩ → t'.uninit = s.uninit →
      t'.isOpen = s.isOpen → t'.deleted = s.deleted → t'.acceptingCnt = s.acceptingCnt → t'.flying = s.flying →
      t'.apool = s.apool → Accounted acceptCnt t' := by
    intro e' t' ht hawaited huninit hopen hdeleted hcnt hflying hapool
    refine h.moved ht huninit hopen hdeleted hcnt (fun a => ?_) (fun a => ?_) ?_ (fun _ he => ?_) (fun _ he => ?_)
    · rw [hth, hflying, hapool]
      rfl
    · rw [hth, hflying, hawaited]
    · rw [hth]
    · rw [hth] at he
      cases he
    · rw [hth] at he
      cases he
  have waits : AcceptThread.uncounts ⟨some (aov, e), .idle⟩ = none → (s.thread t).uncounts ≠ none → 0 < s.acceptingCnt := by
    intro hnone hu
    rw [hth] at hu
    exact absurd hnone hu
  cases e with
  | failed i => exact ⟨waits rfl, inside .report rfl rfl rfl rfl rfl rfl rfl rfl⟩
  | report =>
    refine ⟨waits rfl, inside _ rfl ?_ rfl rfl rfl rfl rfl rfl⟩
    split <;> rfl
  | succeeded i => exact ⟨waits rfl, inside .callback rfl rfl rfl rfl rfl rfl rfl rfl⟩
  | callback => exact ⟨waits rfl, inside .uncount rfl rfl rfl rfl rfl rfl rfl rfl⟩
  | uncount =>
    rw [hth] at timely
    have hboth : 0 < s.acceptingCnt ∧ Accounted acceptCnt (s.resumeEvent t aov .uncount) :=
      h.uncount hth (timely nofun) rfl rfl rfl rfl rfl rfl rfl
    exact ⟨fun _ => hboth.1, hboth.2⟩
  | pushSlot =>
    refine ⟨waits rfl, h.moved (t := t) rfl rfl rfl rfl rfl (fun a => ?_) (fun a => ?_) ?_ (fun _ he => ?_) (fun _ he => ?_)⟩
    · rw [hth, Acceptor.resumeEvent, count_cons_one]
      simp only [AcceptPC.slot, AcceptThread.inEvent, one_none, Option.map_none, Option.map_some]
      change _ + (s.flying.map Prod.fst).count a + 0 + 0 = _
      omega
    · rw [hth]
      rfl
    · rw [hth]
      rfl
    · rw [hth] at he
      cases he
    · rw [hth] at he
      cases he

/-- An `AcceptEx` completes, and a thread enters `on_event`. -/
theorem Accounted.complete (h : Accounted acceptCnt s) {t : Fin n} (hidle : s.thread t = ⟨none, .idle⟩) {aov i : Nat}
    (hmem : (aov, i) ∈ s.flying) (err : Nat) :
    Accounted acceptCnt { s.move t ⟨some (aov, if err ≠ 0 then .failed i else .succeeded i), .idle⟩ with
      flying := s.flying.erase (aov, i) } := by
  have hcount : ∀ a, (s.flying.map Prod.fst).count a =
      ((s.flying.erase (aov, i)).map Prod.fst).count a + one (some aov) a := by
    intro a
    have hperm := (List.perm_cons_erase hmem).map Prod.fst
    rw [hperm.count_eq, List.map_cons, count_cons_one]
  have hin : AcceptThread.awaited ⟨some (aov, if err ≠ 0 then .failed i else .succeeded i), .idle⟩ = some aov := by
    split <;> rfl
  refine h.moved (t := t) rfl rfl rfl rfl rfl (fun a => ?_) (fun a => ?_) ?_ (fun hf => ?_) (fun ha _ _ => ⟨ha, rfl⟩)
  · rw [hidle, hcount a]
    simp only [AcceptPC.slot, AcceptThread.inEvent, one_none, Option.map_none, Option.map_some]
    change s.apool.count a + _ + _ + _ = _
    omega
  · rw [hidle, hcount a, hin]
    rfl
  · rw [hidle]
  · rw [hf] at hmem
    cases hmem

theorem Accounted.step (h : Accounted acceptCnt s) (bound : acceptCnt < 4294967296) {op : AcceptOp n} (timely : s.Timely op)
    (hs : s.step op = some s') : s.Waits op ∧ Accounted acceptCnt s' := by
  cases op with
  | acceptAll t =>
    obtain ⟨hidle, rfl⟩ := step_acceptAll hs
    exact ⟨trivial, h.quiet hidle .acceptAll rfl rfl rfl rfl rfl rfl rfl rfl rfl⟩
  | accept t =>
    obtain ⟨hidle, rfl⟩ := step_accept hs
    exact ⟨trivial, h.quiet hidle (.accept false) rfl rfl rfl rfl rfl rfl rfl rfl rfl⟩
  | disconnected t i =>
    obtain ⟨hth, _, rfl⟩ := step_disconnected hs
    exact ⟨trivial, h.quiet hth (.disconnected i) rfl rfl rfl rfl rfl rfl rfl rfl rfl⟩
  | complete t aov i err =>
    obtain ⟨hidle, hmem, rfl⟩ := step_complete hs
    exact ⟨trivial, h.complete hidle hmem err⟩
  | resume t pends =>
    obtain ⟨hpends, huncounts⟩ := timely
    rcases step_resume hs with ⟨aov, e, hth, rfl⟩ | ⟨hbusy, hpc⟩
    · exact h.resumeEvent hth huncounts
    · refine ⟨fun hu => ?_, h.resumePC bound rfl hpends hpc⟩
      unfold AcceptThread.uncounts at hu
      split at hu
      next hidle _ => exact absurd hidle hbusy
      next => exact absurd rfl hu
  | uninit => exact h.stop timely hs

theorem accounted_start (listener : Fin n) (acceptCnt preCnt incCnt maxCnt : Nat) :
    Accounted acceptCnt (start listener acceptCnt preCnt incCnt maxCnt) := by
  have idle : ∀ t, (start listener acceptCnt preCnt incCnt maxCnt).thread t = ⟨none, .idle⟩ ∨
      (start listener acceptCnt preCnt incCnt maxCnt).thread t = ⟨none, .acceptAll⟩ := by
    intro t
    have hthread : (start listener acceptCnt preCnt incCnt maxCnt).thread =
      Function.update (fun _ => ⟨none, .idle⟩) listener ⟨none, .acceptAll⟩ := rfl
    rw [hthread]
    by_cases ht : t = listener
    · subst ht
      exact Or.inr (Function.update_self _ _ _)
    · exact Or.inl (Function.update_of_ne ht _ _)
  have hnone : ∀ (f : AcceptThread → Option Nat), f ⟨none, .idle⟩ = none → f ⟨none, .acceptAll⟩ = none → ∀ a,
      total (fun th => one (f th) a) (start listener acceptCnt preCnt incCnt maxCnt).thread = 0 := by
    intro f hidle hall a
    refine total_eq_zero fun t => ?_
    rcases idle t with ht | ht
    · rw [ht, hidle]
      exact one_none a
    · rw [ht, hall]
      exact one_none a
  have hslot := hnone (fun th => th.pc.slot) rfl rfl
  have hevent := hnone AcceptThread.inEvent rfl rfl
  have hcounts : ∀ a, (start listener acceptCnt preCnt incCnt maxCnt).counting a = 0 := hnone (fun th => th.pc.counts) rfl rfl
  have hawaited := hnone AcceptThread.awaited rfl rfl
  refine ⟨fun a => ?_, ⟨∅, rfl, fun a => ?_⟩, fun a => ?_, ?_, ?_, nofun⟩
  · unfold places
    rw [hslot, hevent]
    exact List.count_reverse
  · unfold posted
    rw [hawaited]
    simp [start]
  · rw [hcounts]
    exact Nat.zero_le _
  · rintro (hc | hc | hc) <;> cases hc
  · rintro (hc | hc) <;> cases hc

/-- In a run whose steps are all timely the counter never goes below zero, `uninit` waits for every accept, and it
deletes each `AOV` of `init` exactly once. -/
theorem shutdown_waits {listener : Fin n} {preCnt incCnt maxCnt : Nat} {ops : List (AcceptOp n)}
    (bound : acceptCnt < 4294967296)
    (timely : Machine.Along step Timely (start listener acceptCnt preCnt incCnt maxCnt) ops)
    (run : Machine.exec step (start listener acceptCnt preCnt incCnt maxCnt) ops = some s) :
    Machine.Along step Waits (start listener acceptCnt preCnt incCnt maxCnt) ops ∧
      (s.uninit = .left → s.deleted.Perm (List.range acceptCnt)) := by
  obtain ⟨h, waits⟩ := Machine.along_of_invariant (I := Accounted acceptCnt) (Q := Waits)
    (fun s op s' h good hs => (h.step bound good hs).symm) (accounted_start listener acceptCnt preCnt incCnt maxCnt) timely run
  refine ⟨waits, fun hleft => List.perm_iff_count.mpr fun a => ?_⟩
  obtain ⟨hapool, hslots⟩ := h.left hleft
  obtain ⟨hflying, hthreads⟩ := h.drained (Or.inr hleft)
  have hslot : total (fun th => one th.pc.slot a) s.thread = 0 := total_eq_zero fun t => by rw [hslots t]; exact one_none a
  have hevent : total (fun th => one th.inEvent a) s.thread = 0 := total_eq_zero fun t => by
    rw [AcceptThread.inEvent, (hthreads t).1]
    exact one_none a
  rw [← h.slots a]
  unfold places
  rw [hapool, hflying, hslot, hevent]
  simp

/-- The server is stopped while two accepts are outstanding, and both come back aborted. -/
def stopping (t u : Fin n) : List (AcceptOp n) :=
  List.replicate 14 (.resume t true) ++ [.uninit, .uninit, .uninit, .complete u 1 1 995, .complete t 0 0 995] ++
    List.replicate 5 (.resume u true) ++ [.uninit] ++ List.replicate 5 (.resume t true) ++ List.replicate 4 .uninit

theorem shutdown_waits_sample :
    ∃ s, Machine.exec step (start (0 : Fin 2) 2 2 0 2) (stopping 0 1) = some s ∧ s.uninit = .left ∧
      Machine.Along step Waits (start (0 : Fin 2) 2 2 0 2) (stopping 0 1) ∧ s.deleted.Perm (List.range 2) := by
  have run : (Machine.exec step (start (0 : Fin 2) 2 2 0 2) (stopping 0 1)).map (fun s => s.uninit) = some .left := by decide +kernel
  obtain ⟨s, run, hleft⟩ := Option.map_eq_some_iff.mp run
  have timely : Machine.Along step Timely (start (0 : Fin 2) 2 2 0 2) (stopping 0 1) := by decide +kernel
  obtain ⟨waits, deleted⟩ := shutdown_waits (by decide) timely run
  exact ⟨s, run, hleft, waits, deleted hleft⟩

/-- An accept completes before its `accepting_cnt_++`. -/
def early (t u : Fin n) : List (AcceptOp n) :=
  List.replicate 6 (.resume t true) ++ [.complete u 0 0 0] ++ List.replicate 3 (.resume u true)

/-- `uninit` comes between an `accepting_cnt_--` and the `push` after it. -/
def hasty (t u : Fin n) : List (AcceptOp n) :=
  List.replicate 8 (.resume t true) ++ [.complete u 0 0 995] ++ List.replicate 4 (.resume u true) ++
    List.replicate 4 .uninit

theorem shutdown_too_early :
    (∃ s, Machine.exec step (start (0 : Fin 2) 1 1 1 1) (early 0 1) = some s ∧ s.acceptingCnt = 4294967295) ∧
    ¬Machine.Along step Waits (start (0 : Fin 2) 1 1 1 1) (early 0 1) ∧
    ∃ s, Machine.exec step (start (0 : Fin 2) 1 1 1 1) (hasty 0 1) = some s ∧ s.uninit = .left ∧ s.deleted = [] ∧
      (s.thread 1).event = some (0, .pushSlot) := by
  refine ⟨?_, by decide +kernel, ?_⟩
  · have run : (Machine.exec step (start (0 : Fin 2) 1 1 1 1) (early 0 1)).map (fun s => s.acceptingCnt) = some 4294967295 := by
      decide +kernel
    exact Option.map_eq_some_iff.mp run
  · have run : (Machine.exec step (start (0 : Fin 2) 1 1 1 1) (hasty 0 1)).map
        (fun s => (s.uninit, s.deleted, (s.thread 1).event)) = some (.left, [], some (0, .pushSlot)) := by decide +kernel
    obtain ⟨s, run, hs⟩ := Option.map_eq_some_iff.mp run
    simp only [Prod.mk.injEq] at hs
    exact ⟨s, run, hs⟩

end Acceptor

end Ven
