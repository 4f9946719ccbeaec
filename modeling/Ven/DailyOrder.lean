import Ven.CalendarLog
import Ven.LoggerRuns

namespace Ven

namespace DailyLog

open Time

/-- For each of some times the latest one up to it, from `m` on. -/
def latest : Int → List Int → List Int
  | _, [] => []
  | m, t :: ts => max m t :: latest (max m t) ts

/-- The files that the records go to: those of the latest times so far. -/
def placed (hour min : Nat) (m : Int) (rs : List (Int × Nat)) : List (Int × Option Int) :=
  (rs.map Prod.fst).zip ((latest m (rs.map Prod.fst)).map fun l => some (path (boundary hour min l)))

variable {hour min : Nat} {s s' : DailyLog} {a b m t l : Int} {ts : List Int} {rs : List (Int × Nat)}

theorem boundary_mono (hab : a ≤ b) : boundary hour min a ≤ boundary hour min b := by
  unfold boundary day
  omega

theorem boundary_max_le : boundary hour min (max a b) ≤ t ↔ boundary hour min a ≤ t ∧ boundary hour min b ≤ t := by
  refine ⟨fun h => ⟨(boundary_mono (le_max_left a b)).trans h, (boundary_mono (le_max_right a b)).trans h⟩, fun h => ?_⟩
  rcases max_choice a b with hm | hm
  · rw [hm]
    exact h.1
  · rw [hm]
    exact h.2

/-- A record from before the day's change that is written behind one from after it opens no file. -/
theorem chosen_max_iff : chosen hour min a b = boundary hour min (max a b) ↔ Lively hour min a (max a b) := by
  rcases le_total a b with hab | hba
  · rw [max_eq_right hab]
    exact chosen_eq_iff hab
  · rw [max_eq_left hba]
    unfold chosen Lively boundary addDay day
    split
    next => omega
    next => omega

theorem Aligned.keep_latest (h : Aligned hour min a s) (len : Nat) (hl : Lively hour min a (max a b)) :
    Aligned hour min (max a b) (s.write b len) := by
  obtain ⟨_, hnext, hfile⟩ := h.write b len
  rw [chosen_max_iff.mpr hl] at hnext hfile
  exact ⟨hnext, Or.inr hfile⟩

/-- Records in any order of their times. -/
theorem Aligned.placed_iff (h : Aligned hour min a s) (run : Machine.exec DailyLog.step s rs = some s') :
    s'.lines = s.lines ++ placed hour min a rs ↔ (a :: latest a (rs.map Prod.fst)).IsChain (Lively hour min) := by
  induction rs generalizing s a with
  | nil =>
    cases Option.some.inj run
    exact ⟨fun _ => List.IsChain.singleton a, fun _ => (List.append_nil _).symm⟩
  | cons r rs ih =>
    obtain ⟨b, len⟩ := r
    obtain ⟨mid, hmid, run⟩ := Option.bind_eq_some_iff.mp run
    cases Option.some.inj hmid
    obtain ⟨hlines, _⟩ := h.write b len
    rw [List.map_cons, latest, List.isChain_cons_cons]
    by_cases hl : Lively hour min a (max a b)
    · rw [← ih (h.keep_latest len hl) run, hlines, chosen_max_iff.mpr hl, List.append_assoc]
      exact ⟨fun he => ⟨hl, he⟩, And.right⟩
    · refine ⟨fun he => ?_, fun hc => absurd hc.1 hl⟩
      obtain ⟨more, hmore⟩ := lines_grow run
      rw [hmore, hlines, List.append_assoc] at he
      have hfirst := (List.cons.inj (List.append_cancel_left he)).1
      have hpath := Option.some.inj (Prod.mk.inj hfirst).2
      exact absurd (chosen_max_iff.mp (path_chosen_inj hpath)) hl

theorem length_latest (m : Int) (ts : List Int) : (latest m ts).length = ts.length := by
  induction ts generalizing m with
  | nil => rfl
  | cons t ts ih => rw [latest, List.length_cons, List.length_cons, ih]

/-- The latest time so far is of no later day exactly when nothing before is. -/
theorem boundary_latest_le {i : Nat} (hl : (latest m ts)[i]? = some l) :
    boundary hour min l ≤ b ↔ boundary hour min m ≤ b ∧ ∀ t ∈ ts.take (i + 1), boundary hour min t ≤ b := by
  induction ts generalizing m i with
  | nil => cases hl
  | cons t ts ih =>
    rw [latest] at hl
    rw [List.take_succ_cons, List.forall_mem_cons]
    cases i with
    | zero =>
      cases Option.some.inj hl
      rw [boundary_max_le, List.take_zero]
      exact ⟨fun h => ⟨h.1, h.2, fun _ hx => by cases hx⟩, fun h => ⟨h.1, h.2.1⟩⟩
    | succ i =>
      rw [List.getElem?_cons_succ] at hl
      rw [ih hl, boundary_max_le, and_assoc]

theorem le_latest {i : Nat} (hl : (latest m ts)[i]? = some l) (ht : ts[i]? = some t) : t ≤ l := by
  induction ts generalizing m i with
  | nil => cases ht
  | cons u ts ih =>
    rw [latest] at hl
    cases i with
    | zero =>
      cases Option.some.inj hl
      cases Option.some.inj ht
      exact le_max_right _ _
    | succ i => exact ih hl ht

theorem latest_mem {i : Nat} (hl : (latest m ts)[i]? = some l) : l = m ∨ l ∈ ts := by
  induction ts generalizing m i with
  | nil => cases hl
  | cons t ts ih =>
    rw [latest] at hl
    have hmax : max m t = m ∨ max m t = t := max_choice m t
    cases i with
    | zero =>
      cases Option.some.inj hl
      exact hmax.imp_right fun h => by rw [h]; exact List.mem_cons_self
    | succ i =>
      rw [List.getElem?_cons_succ] at hl
      rcases ih hl with h | h
      · rw [h]
        exact hmax.imp_right fun h => by rw [h]; exact List.mem_cons_self
      · exact Or.inr (List.mem_cons_of_mem t h)

/-- Where the record at `i` of some records goes: to the day of the latest time so far, which is its own day exactly
when nothing before is of a later one. -/
theorem placed_at (hour min : Nat) (m : Int) {i : Nat} (ht : (rs.map Prod.fst)[i]? = some t) :
    ∃ l, (placed hour min m rs)[i]? = some (t, some (path (boundary hour min l))) ∧ (l = m ∨ l ∈ rs.map Prod.fst) ∧
      (boundary hour min l = boundary hour min t ↔ boundary hour min m ≤ boundary hour min t ∧
        ∀ u ∈ (rs.map Prod.fst).take i, boundary hour min u ≤ boundary hour min t) := by
  have hlen : i < (latest m (rs.map Prod.fst)).length := by
    rw [length_latest]
    exact (List.getElem?_eq_some_iff.mp ht).1
  obtain ⟨l, hl⟩ : ∃ l, (latest m (rs.map Prod.fst))[i]? = some l := ⟨_, List.getElem?_eq_getElem hlen⟩
  have hplaced : (placed hour min m rs)[i]? = some (t, some (path (boundary hour min l))) := by
    refine List.getElem?_zip_eq_some.mpr ⟨ht, ?_⟩
    rw [List.getElem?_map, hl]
    rfl
  have htake : (rs.map Prod.fst).take (i + 1) = (rs.map Prod.fst).take i ++ [t] := by
    rw [List.take_add_one, ht]
    rfl
  have hle : boundary hour min l ≤ boundary hour min t ↔ boundary hour min m ≤ boundary hour min t ∧
      ∀ u ∈ (rs.map Prod.fst).take i, boundary hour min u ≤ boundary hour min t := by
    rw [boundary_latest_le hl, htake, List.forall_mem_append]
    refine and_congr_right fun _ => ⟨And.left, fun h => ⟨h, fun u hu => ?_⟩⟩
    rw [List.mem_singleton.mp hu]
  refine ⟨l, hplaced, latest_mem hl, ?_⟩
  rw [← hle]
  exact ⟨fun h => h.le, fun h => h.antisymm (boundary_mono (le_latest hl ht))⟩

end DailyLog

namespace Windows

/-- A time of the years 1970 to 3000, but not of their first or last day. -/
structure Time.Datable (offset : Int) (t : Time) : Prop where
  normal : t.Normal (gregorian offset)
  low : Ven.Time.day ≤ t.clock
  room : InCalendar (Ven.Time.addDay t.clock 1)

/-- The boundary before such a time begins a minute that has a name of its own. -/
theorem Time.Datable.boundary {offset : Int} {t : Time} (h : t.Datable offset) (hour min : Nat) :
    Ven.DailyLog.path (Ven.Time.boundary hour min t.clock) ∈ {m | InCalendar (m * 60000)} := by
  have hlow := h.low
  have hroom := h.room
  change InCalendar (Ven.DailyLog.path (Ven.Time.boundary hour min t.clock) * 60000)
  unfold InCalendar Ven.DailyLog.path Ven.Time.boundary Ven.Time.addDay Ven.Time.day at *
  omega

/-- A `DailyLog` behind a logger. The product in `add_day` fits an `int`, so that `write` has a result. -/
def DailyLog.event (offset : Int) (binaryPath : String) (has_console use_console : Bool) (level : LogLevel)
    (async : Bool) : LogEvent DailyLog :=
  ⟨has_console, use_console, level, async,
    fun s info len => (s.write (gregorian offset) binaryPath info.time len).getD s⟩

end Windows

namespace Logger

open Machine

variable {offset : Int} {p : Platform} {as : List LoggerAct} {s : Logger Windows.DailyLog}

/-- What a daily log makes of the records handed to it, beside a run of the log that counts milliseconds. -/
theorem filed_refines (p : Platform) (binaryPath : String) (console use : Bool) (level : LogLevel) (async : Bool)
    {file : Windows.DailyLog} {a : DailyLog} (h : Windows.DailyLog.Refines offset binaryPath file a)
    {infos : List LogInfo} (times : ∀ info ∈ infos, info.time.Datable offset) :
    ∃ rs a', exec DailyLog.step a rs = some a' ∧ rs.map Prod.fst = infos.map (fun info => info.time.clock) ∧
      Windows.DailyLog.Refines offset binaryPath
        (filed p (Windows.DailyLog.event offset binaryPath console use level async) file infos) a' := by
  induction infos generalizing file a with
  | nil => exact ⟨[], a, rfl, rfl, h⟩
  | cons info infos ih =>
    obtain ⟨hinfo, hrest⟩ := List.forall_mem_cons.mp times
    obtain ⟨file', hwrite, h'⟩ := h.write hinfo.normal hinfo.room
      ((CharArray.init 1024).add p.build (info.format p.pointer)).read
    obtain ⟨rs, a', run, htimes, hend⟩ := ih h' hrest
    refine ⟨(info.time.clock, _) :: rs, a', run, congrArg (_ :: ·) htimes, ?_⟩
    have hfile : (Windows.DailyLog.event offset binaryPath console use level async).file file info
        ((CharArray.init 1024).add p.build (info.format p.pointer)).read = file' := by
      change (Windows.DailyLog.write _ _ _ _ _).getD file = file'
      rw [hwrite]
      rfl
    unfold filed
    rw [List.foldl_cons, hfile]
    exact hend

/-- The threads take the time of a record before they queue for the logger, so records may be written in another order
than that of their times. As long as the latest time so far never passes two changes of the day at once, a record is in
the file of its own day exactly when no record of a later day was written before it. -/
theorem daily_line_own_file_iff (binaryPath : String) {console use async : Bool} {level : LogLevel} {hour min : Nat}
    (hhour : hour < 24) (hmin : min < 60) {now now' : Windows.Time} (h : now.Datable offset) (h' : now'.Datable offset)
    (hle : now.clock ≤ now'.clock) (hsoon : now'.clock ≤ Time.addDay now.clock 1) {s₀ : Windows.DailyLog}
    (hinit : Windows.DailyLog.init (Windows.gregorian offset) now now' hour min = some s₀)
    (run : exec (step p) (init (Windows.DailyLog.event offset binaryPath console use level async) s₀) as = some s)
    (times : ∀ info ∈ s.written, info.time.Datable offset) :
    ∃ n, (n = now.clock ∨ n = now'.clock) ∧
      ((n :: DailyLog.latest n (s.written.map fun info => info.time.clock)).IsChain (DailyLog.Lively hour min) →
        ∀ i info, s.written[i]? = some info →
          ((s.file.lines.map Prod.snd)[i]? = some (some (Windows.DailyLog.name binaryPath
              (DailyLog.path (Time.boundary hour min info.time.clock)))) ↔
            Time.boundary hour min n ≤ Time.boundary hour min info.time.clock ∧
              ∀ before ∈ s.written.take i,
                Time.boundary hour min before.time.clock ≤ Time.boundary hour min info.time.clock)) := by
  obtain ⟨file, n, hinit', hn, hstart⟩ :=
    Windows.DailyLog.refines_init binaryPath h.normal h'.normal hle hsoon h.low h'.room hhour hmin
  cases Option.some.inj (hinit.symm.trans hinit')
  obtain ⟨rs, a, hrun, htimes, hend⟩ := filed_refines p binaryPath console use level async hstart times
  rw [← (flow_exec run).file] at hend
  have hdate : ∀ l, l = n ∨ l ∈ rs.map Prod.fst → ∃ t : Windows.Time, t.Datable offset ∧ t.clock = l := by
    rintro l (rfl | hl)
    · rcases hn with rfl | rfl
      · exact ⟨now, h, rfl⟩
      · exact ⟨now', h', rfl⟩
    · rw [htimes] at hl
      obtain ⟨info, hin, rfl⟩ := List.mem_map.mp hl
      exact ⟨info.time, times info hin, rfl⟩
  refine ⟨n, hn, fun lively i info hi => ?_⟩
  rw [← htimes] at lively
  have hlines := ((DailyLog.aligned_init hhour hmin n).placed_iff hrun).mpr lively
  have hnone : (DailyLog.init n hour min).lines = [] := rfl
  have ht : (rs.map Prod.fst)[i]? = some info.time.clock := by
    rw [htimes, List.getElem?_map, hi]
    rfl
  obtain ⟨l, hat, hl, hown⟩ := DailyLog.placed_at hour min n ht
  rw [hnone, List.nil_append] at hlines
  have hfiles : s.file.lines.map Prod.snd = a.lines.map fun l => l.2.map (Windows.DailyLog.name binaryPath) := by
    have hsnd := congrArg (List.map Prod.snd) hend.lines
    rw [List.map_map, List.map_map] at hsnd
    exact hsnd
  have htake : ∀ P : Int → Prop, (∀ u ∈ (rs.map Prod.fst).take i, P u) ↔ ∀ before ∈ s.written.take i, P before.time.clock := by
    intro P
    rw [htimes, ← List.map_take, List.forall_mem_map]
  obtain ⟨late, hlate, rfl⟩ := hdate l hl
  have hinfo := times info (List.mem_of_getElem? hi)
  rw [htake] at hown
  rw [hfiles, List.getElem?_map, hlines, hat, ← hown, Option.map_some, Option.map_some, Option.some.injEq,
    Option.some.injEq, (Windows.DailyLog.name_injOn binaryPath).eq_iff (hlate.boundary hour min) (hinfo.boundary hour min)]
  exact ⟨DailyLog.path_boundary_inj, fun heq => by rw [heq]⟩

/-- `VENL_D(name)("hi")` at a given hour of 2000-01-03. -/
def hiAt (hour : Nat) : LogCall := { hi .debug with now := Windows.civil ⟨30, 0, 2⟩ hour 0 0 0 }

/-- The day changes at one o'clock, and a record from before it is written behind one from after it. -/
theorem daily_line_own_file_sample : ∃ s₀ s, Windows.DailyLog.init (Windows.gregorian 0)
      (Windows.civil ⟨30, 0, 2⟩ 0 0 0 0) (Windows.civil ⟨30, 0, 2⟩ 0 0 0 0) (1 : Nat) (0 : Nat) = some s₀ ∧
    exec (step posix) (init (Windows.DailyLog.event 0 "ven" true true .debug false) s₀) [.log (hiAt 2), .log (hiAt 0)] =
      some s ∧
    s.written[1]? = some ((hiAt 0).info .posix) ∧
    (s.file.lines.map Prod.snd)[1]? ≠
      some (some (Windows.DailyLog.name "ven" (DailyLog.path (Time.boundary 1 0 946857600000)))) := by
  have hvalid : Calendar.Date.Valid 1970 1031 ⟨30, 0, 2⟩ := ⟨by decide, by decide, by decide⟩
  have hdays : Calendar.daysOf 1970 1031 ⟨30, 0, 2⟩ = 10959 := by decide
  have hclock (hour : Nat) (hhour : hour < 24) :
      (Windows.civil ⟨30, 0, 2⟩ hour 0 0 0).clock = 946857600000 + hour * 3600000 := by
    rw [Windows.Time.clock_civil hvalid hhour (by decide) (by decide), hdays]
    omega
  have hdate (hour : Nat) (hhour : hour < 24) : (Windows.civil ⟨30, 0, 2⟩ hour 0 0 0).Datable 0 := by
    refine ⟨Windows.normal_civil hvalid hhour (by decide) (by decide) (by decide) 0, ?_, ?_⟩
    · rw [hclock hour hhour]
      unfold Time.day
      omega
    · rw [hclock hour hhour]
      unfold Windows.InCalendar Time.addDay Time.day
      omega
  obtain ⟨s₀, n, hinit, _, _⟩ := Windows.DailyLog.refines_init "ven" (hdate 0 (by decide)).normal
    (hdate 0 (by decide)).normal le_rfl (by decide) (hdate 0 (by decide)).low (hdate 0 (by decide)).room
    (show 1 < 24 by decide) (show 0 < 60 by decide)
  obtain ⟨s, hs, hadded, hwritten, _, _⟩ := synchronous posix (Windows.DailyLog.event 0 "ven" true true .debug false) rfl
    s₀ [hiAt 2, hiAt 0]
  have hw : s.written = [(hiAt 2).info .posix, (hiAt 0).info .posix] := by
    rw [hwritten, hadded]
    exact records_debug .posix (by decide)
  have hi : s.written[1]? = some ((hiAt 0).info .posix) := by
    rw [hw]
    rfl
  have htimes : ∀ info ∈ s.written, info.time.Datable 0 := by
    rw [hw]
    exact List.forall_mem_cons.mpr ⟨hdate 2 (by decide), List.forall_mem_singleton.mpr (hdate 0 (by decide))⟩
  obtain ⟨n, hn, hall⟩ := daily_line_own_file_iff "ven" (show 1 < 24 by decide) (show 0 < 60 by decide)
    (hdate 0 (by decide)) (hdate 0 (by decide)) le_rfl (by decide) hinit hs htimes
  have hnow : n = 946857600000 := (or_self_iff.mp hn).trans (hclock 0 (by decide))
  have hlively : (n :: DailyLog.latest n (s.written.map fun info => info.time.clock)).IsChain (DailyLog.Lively 1 0) := by
    rw [hnow, hw]
    decide
  refine ⟨s₀, s, hinit, hs, hi, fun hown => ?_⟩
  obtain ⟨_, hbefore⟩ := (hall hlively 1 _ hi).mp hown
  exact absurd (hbefore ((hiAt 2).info .posix) (by rw [hw]; exact List.mem_cons_self)) (by decide)

end Logger

end Ven
