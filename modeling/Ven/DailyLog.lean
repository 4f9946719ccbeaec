import Ven.LogFile
import Ven.Machine
import Mathlib.Data.Int.Order.Basic
import Mathlib.Data.List.Chain
import Mathlib.Order.Bounds.Basic

namespace Ven

namespace Time

/-- 24 hours. A time is the number of milliseconds of the local clock since some midnight. -/
def day : Int := 86400000

def addDay (t : Int) (n : Int) : Int := t + n * day

/-- `today`, with the clock at `now` -/
def today (now : Int) (hour min : Nat) : Int := now - now % day + hour * 3600000 + min * 60000

/-- The latest time at `hour:min` that is not after `t`. -/
def boundary (hour min : Nat) (t : Int) : Int :=
  t - (t - (hour * 3600000 + min * 60000)) % day

theorem boundary_isGreatest (hour min : Nat) (t : Int) :
    IsGreatest {b | b ≤ t ∧ ∃ d : Int, b = addDay (hour * 3600000 + min * 60000) d} (boundary hour min t) := by
  unfold boundary addDay day
  generalize (hour * 3600000 + min * 60000 : Int) = off
  refine ⟨⟨by omega, (t - off) / 86400000, by omega⟩, ?_⟩
  rintro b ⟨hb, d, rfl⟩
  omega

end Time

/-- A `DailyLog` with the `LogFile` of its logger. `lines` records the time of each record and the file that it was
written to. -/
structure DailyLog where
  nextTime : Int
  log : LogFile Int
  lines : List (Int × Option Int)

namespace DailyLog

open Time

def init (now : Int) (hour min : Nat) : DailyLog :=
  let nextTime := today now hour min
  let nextTime := if nextTime ≤ now then addDay nextTime 1 else nextTime
  ⟨nextTime, LogFile.start, []⟩

/-- The name has the date, the hour and the minute. -/
def path (t : Int) : Int := t / 60000

/-- The first half of `write`. -/
def ready (s : DailyLog) : DailyLog :=
  if s.log.valid then s else { s with log := s.log.open (path (addDay s.nextTime (-1))) }

/-- A record of `len` bytes. -/
def write (s : DailyLog) (time : Int) (len : Nat) : DailyLog :=
  let s := ready s
  let s := if s.nextTime ≤ time then
      { s with log := s.log.open (path s.nextTime), nextTime := addDay s.nextTime 1 }
    else s
  { s with log := s.log.write len, lines := s.lines ++ [(time, s.log.file)] }

def step (s : DailyLog) (r : Int × Nat) : Option DailyLog := some (write s r.1 r.2)

/-- The files that the records belong to. -/
def filed (hour min : Nat) (rs : List (Int × Nat)) : List (Int × Option Int) :=
  rs.map fun r => (r.1, some (path (boundary hour min r.1)))

/-- No silence from `a` to `b` spans two times of the day's change. -/
def Lively (hour min : Nat) (a b : Int) : Prop := boundary hour min b ≤ addDay (boundary hour min a) 1

instance (hour min : Nat) : DecidableRel (Lively hour min) := fun _ _ => inferInstanceAs (Decidable (_ ≤ _))

variable {hour min : Nat} {s s' : DailyLog} {a b : Int} {rs : List (Int × Nat)}

theorem path_boundary_inj (h : path (boundary hour min a) = path (boundary hour min b)) :
    boundary hour min a = boundary hour min b := by
  unfold path boundary day at *
  omega

/-- The file that is open, if any, and `next_time_` fit a record at `a`. -/
structure Aligned (hour min : Nat) (a : Int) (s : DailyLog) : Prop where
  next : s.nextTime = addDay (boundary hour min a) 1
  file : s.log.file = none ∨ s.log.file = some (path (boundary hour min a))

theorem aligned_init (hhour : hour < 24) (hmin : min < 60) (now : Int) : Aligned hour min now (init now hour min) := by
  refine ⟨?_, Or.inl rfl⟩
  unfold init
  simp only
  unfold today boundary addDay day
  split
  next => omega
  next => omega

theorem Aligned.ready (h : Aligned hour min a s) :
    s.ready.nextTime = s.nextTime ∧ s.ready.lines = s.lines ∧
      s.ready.log.file = some (path (boundary hour min a)) := by
  have hback : addDay s.nextTime (-1) = boundary hour min a := by
    rw [h.next]
    unfold addDay
    omega
  unfold DailyLog.ready
  rw [hback]
  rcases h.file with hnone | hsome
  · have hv : s.log.valid = false := by simp [LogFile.valid, hnone]
    rw [hv]
    exact ⟨rfl, rfl, rfl⟩
  · have hv : s.log.valid = true := by simp [LogFile.valid, hsome]
    rw [hv]
    exact ⟨rfl, rfl, hsome⟩

/-- The boundary whose file a record at `b` goes to after one at `a`. -/
def chosen (hour min : Nat) (a b : Int) : Int :=
  if addDay (boundary hour min a) 1 ≤ b then addDay (boundary hour min a) 1 else boundary hour min a

theorem chosen_eq_iff (hab : a ≤ b) : chosen hour min a b = boundary hour min b ↔ Lively hour min a b := by
  unfold chosen Lively boundary addDay day
  split
  next => omega
  next => omega

theorem Aligned.write (h : Aligned hour min a s) (b : Int) (len : Nat) :
    (s.write b len).lines = s.lines ++ [(b, some (path (chosen hour min a b)))] ∧
      (s.write b len).nextTime = addDay (chosen hour min a b) 1 ∧
      (s.write b len).log.file = some (path (chosen hour min a b)) := by
  obtain ⟨hnext, hlines, hfile⟩ := h.ready
  unfold DailyLog.write chosen
  simp only [hnext, h.next, hlines]
  by_cases hb : addDay (boundary hour min a) 1 ≤ b
  · simp [hb, LogFile.write, LogFile.open]
  · simp [hb, LogFile.write, hfile, hnext, hlines, h.next]

/-- Boundaries are whole days apart, so that their files differ when they do. -/
theorem path_chosen_inj {c : Int} (h : path (chosen hour min a b) = path (boundary hour min c)) :
    chosen hour min a b = boundary hour min c := by
  unfold path chosen boundary addDay day at *
  split at h
  next hc => rw [if_pos hc]; omega
  next hc => rw [if_neg hc]; omega

theorem Aligned.keep (h : Aligned hour min a s) (hab : a ≤ b) (len : Nat) (hl : Lively hour min a b) :
    Aligned hour min b (s.write b len) := by
  obtain ⟨_, hnext, hfile⟩ := h.write b len
  rw [(chosen_eq_iff hab).mpr hl] at hnext hfile
  exact ⟨hnext, Or.inr hfile⟩

theorem write_lines (s : DailyLog) (b : Int) (len : Nat) : ∃ f, (s.write b len).lines = s.lines ++ [(b, f)] := by
  have hready : s.ready.lines = s.lines := by
    unfold ready
    split
    next => rfl
    next => rfl
  unfold write
  simp only [← hready]
  split
  next => exact ⟨_, rfl⟩
  next => exact ⟨_, rfl⟩

theorem lines_grow (run : Machine.exec step s rs = some s') : ∃ more, s'.lines = s.lines ++ more := by
  refine Machine.exec_invariant (I := fun t => ∃ more, t.lines = s.lines ++ more) ?_ ⟨[], (List.append_nil _).symm⟩ run
  rintro t ⟨b, len⟩ t' ⟨more, hmore⟩ hs
  cases Option.some.inj hs
  obtain ⟨f, hf⟩ := write_lines t b len
  exact ⟨more ++ [(b, f)], by rw [hf, hmore, List.append_assoc]⟩

theorem Aligned.filed_iff (h : Aligned hour min a s) (hmono : (a :: rs.map Prod.fst).IsChain (· ≤ ·))
    (run : Machine.exec DailyLog.step s rs = some s') :
    s'.lines = s.lines ++ filed hour min rs ↔ (a :: rs.map Prod.fst).IsChain (Lively hour min) := by
  induction rs generalizing s a with
  | nil =>
    cases Option.some.inj run
    exact ⟨fun _ => List.IsChain.singleton a, fun _ => (List.append_nil _).symm⟩
  | cons r rs ih =>
    obtain ⟨b, len⟩ := r
    obtain ⟨mid, hmid, run⟩ := Option.bind_eq_some_iff.mp run
    cases Option.some.inj hmid
    obtain ⟨hab, hrest⟩ := List.isChain_cons_cons.mp hmono
    obtain ⟨hlines, _⟩ := h.write b len
    rw [List.map_cons, List.isChain_cons_cons]
    by_cases hl : Lively hour min a b
    · rw [← ih (h.keep hab len hl) hrest run, hlines, (chosen_eq_iff hab).mpr hl, List.append_assoc]
      exact ⟨fun he => ⟨hl, he⟩, And.right⟩
    · refine ⟨fun he => ?_, fun hc => absurd hc.1 hl⟩
      obtain ⟨more, hmore⟩ := lines_grow run
      rw [hmore, hlines, List.append_assoc] at he
      have hfirst := (List.cons.inj (List.append_cancel_left he)).1
      have hpath := Option.some.inj (Prod.mk.inj hfirst).2
      exact absurd ((chosen_eq_iff hab).mp (path_chosen_inj hpath)) hl

/-- Every record of a run goes to the file of its own day exactly when no silence, not even the one before the
first record, spans two times of the day's change. -/
theorem daily_lines_filed_iff {hour min : Nat} (hhour : hour < 24) (hmin : min < 60) (now : Int)
    {rs : List (Int × Nat)} (hmono : (now :: rs.map Prod.fst).IsChain (· ≤ ·)) {s : DailyLog}
    (run : Machine.exec step (init now hour min) rs = some s) :
    s.lines = filed hour min rs ↔ (now :: rs.map Prod.fst).IsChain (Lively hour min) :=
  (aligned_init hhour hmin now).filed_iff hmono run

/-- A record on each of two days. -/
theorem daily_lines_filed_sample : ∃ s, Machine.exec step (init 5 1 0) [(7, 20), (3600000, 30)] = some s ∧
    s.lines = filed 1 0 [(7, 20), (3600000, 30)] :=
  ⟨_, rfl, (daily_lines_filed_iff (by decide) (by decide) 5 (by decide) rfl).mpr (by decide)⟩

/-- After a silence of two days the file that is opened next is a day behind. -/
theorem daily_line_misfiled : ∃ s, Machine.exec step (init 5 1 0) [(176400000, 20)] = some s ∧
    s.lines = [(176400000, some 60)] ∧ filed 1 0 [(176400000, 20)] = [(176400000, some 2940)] :=
  ⟨_, rfl, rfl, rfl⟩

end DailyLog

end Ven
