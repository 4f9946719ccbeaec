import Ven.TimeOrder
import Mathlib.Data.Set.Function

namespace Ven

variable {κ κ' : Type} [DecidableEq κ] [DecidableEq κ'] {f : κ → κ'} {S : Set κ}

namespace Files

variable {p : κ} {n : Nat} {fs : Files κ}

theorem map_append (hf : Set.InjOn f S) (hp : p ∈ S) (hfs : ∀ q ∈ fs.paths, q ∈ S) :
    (fs.append p n).map (Prod.map f id) = append (f p) n (fs.map (Prod.map f id)) := by
  induction fs with
  | nil => rfl
  | cons g fs ih =>
    obtain ⟨q, m⟩ := g
    obtain ⟨hq, hrest⟩ := List.forall_mem_cons.mp hfs
    have hiff : f q = f p ↔ q = p := hf.eq_iff hq hp
    by_cases h : q = p
    · subst h
      simp [append]
    · have hne : ¬f q = f p := fun he => h (hiff.mp he)
      simp only [append, h, if_false, List.map_cons, Prod.map_apply, id_eq, hne, ih hrest]

theorem size_map (hf : Set.InjOn f S) (hp : p ∈ S) (hfs : ∀ q ∈ fs.paths, q ∈ S) :
    size (f p) (fs.map (Prod.map f id)) = fs.size p := by
  induction fs with
  | nil => rfl
  | cons g fs ih =>
    obtain ⟨q, m⟩ := g
    obtain ⟨hq, hrest⟩ := List.forall_mem_cons.mp hfs
    have hiff : f q = f p ↔ q = p := hf.eq_iff hq hp
    simp only [size, List.map_cons, Prod.map_apply, id_eq, hiff, ih hrest]

theorem mem_paths_append {q : κ} (h : q ∈ (fs.append p n).paths) : q = p ∨ q ∈ fs.paths := by
  by_cases hp : p ∈ fs.paths
  · rw [paths_append_of_mem hp] at h
    exact Or.inr h
  · rw [paths_append_of_notMem hp] at h
    rcases List.mem_append.mp h with h | h
    · exact Or.inr h
    · exact Or.inl (List.mem_singleton.mp h)

end Files

namespace LogFile

/-- The same file and directory under other names. -/
def rename (f : κ → κ') (l : LogFile κ) : LogFile κ' := ⟨l.file.map f, l.size, l.files.map (Prod.map f id)⟩

/-- All names are in `S`. -/
structure Within (S : Set κ) (l : LogFile κ) : Prop where
  file : ∀ p, l.file = some p → p ∈ S
  files : ∀ p ∈ l.files.paths, p ∈ S

variable {l : LogFile κ} {p : κ}

theorem Within.open (h : l.Within S) (hp : p ∈ S) : (l.open p).Within S where
  file q hq := by
    cases Option.some.inj hq
    exact hp
  files q hq := by
    rcases Files.mem_paths_append hq with rfl | hq
    · exact hp
    · exact h.files q hq

theorem Within.write (h : l.Within S) (len : Nat) : (l.write len).Within S := by
  unfold LogFile.write
  split
  next => exact h
  next p hp =>
    refine ⟨h.file, fun q hq => ?_⟩
    rcases Files.mem_paths_append hq with rfl | hq
    · exact h.file q hp
    · exact h.files q hq

theorem rename_open (hf : Set.InjOn f S) (h : l.Within S) (hp : p ∈ S) : (l.open p).rename f = (l.rename f).open (f p) := by
  unfold rename LogFile.open
  have hfiles := Files.map_append (n := 0) hf hp h.files
  have hsize : Files.size (f p) ((l.files.append p 0).map (Prod.map f id)) = (l.files.append p 0).size p :=
    Files.size_map hf hp (h.open hp).files
  rw [← hfiles, hsize]
  rfl

theorem rename_write (hf : Set.InjOn f S) (h : l.Within S) (len : Nat) : (l.write len).rename f = (l.rename f).write len := by
  obtain ⟨file, size, files⟩ := l
  cases file with
  | none => rfl
  | some p =>
    have hfiles := Files.map_append (n := len) hf (h.file p rfl) h.files
    unfold rename LogFile.write
    simp only [Option.map_some, mk.injEq, true_and]
    exact hfiles

end LogFile

theorem length_padded {width : Nat} {z : Int} (hw : 0 < width) (hz : 0 ≤ z) (hlt : z.natAbs < 10 ^ width) :
    (padded width z).length = width := by
  have hlen := (Nat.length_repr_le_iff hw).mpr hlt
  unfold padded
  simp only [String.length_append, String.length_ofList, List.length_replicate, if_neg (Int.not_lt.mpr hz),
    String.length_empty]
  omega

/-- A number of fixed width at the end of a text can be told from the text. -/
theorem append_padded {width : Nat} {s s' : String} {y z : Int} (hw : 0 < width) (hy : 0 ≤ y ∧ y.natAbs < 10 ^ width)
    (hz : 0 ≤ z ∧ z.natAbs < 10 ^ width) (h : s ++ padded width y = s' ++ padded width z) : s = s' ∧ y = z := by
  have hlists := congrArg String.toList h
  rw [String.toList_append, String.toList_append] at hlists
  have hlen : (padded width y).toList.length = (padded width z).toList.length := by
    rw [String.length_toList, String.length_toList, length_padded hw hy.1 hy.2, length_padded hw hz.1 hz.2]
  obtain ⟨hs, ht⟩ := List.append_inj' hlists hlen
  exact ⟨String.toList_inj.mp hs, padded_injective width (String.toList_inj.mp ht)⟩

namespace Windows

/-- A `DailyLog` as it is on Windows, with the `LogFile` of its logger. `lines` records the time of each record and the
file that it was written to. -/
structure DailyLog where
  nextTime : Time
  log : LogFile String
  lines : List (Time × Option String)

namespace DailyLog

def today (now : Time) (hour min : Int) : Time := { now with hour := u32 hour, min := u32 min, sec := 0, msec := 0 }

/-- The constructor; `now` and `now'` are what `today` and the test behind it read. -/
def init (z : Zone) (now now' : Time) (hour min : Int) : Option DailyLog :=
  let nextTime := today now hour min
  (if nextTime.le now' then nextTime.add_day z 1 else some nextTime).map fun nextTime => ⟨nextTime, LogFile.start, []⟩

/-- `"%s_%04d%02d%02d_%02d%02d.log"` -/
def path (binaryPath : String) (t : Time) : String :=
  binaryPath ++ "_" ++ padded 4 (asInt32 t.year) ++ padded 2 (asInt32 t.mon) ++ padded 2 (asInt32 t.day) ++ "_" ++
    padded 2 (asInt32 t.hour) ++ padded 2 (asInt32 t.min) ++ ".log"

/-- The first half of `write`. -/
def ready (z : Zone) (binaryPath : String) (s : DailyLog) : Option DailyLog :=
  if s.log.valid then some s
  else do
    let t ← s.nextTime.add_day z (-1)
    some { s with log := s.log.open (path binaryPath t) }

/-- The second half. -/
def roll (z : Zone) (binaryPath : String) (s : DailyLog) (time : Time) : Option DailyLog :=
  if time.ge s.nextTime then do
    let nextTime ← s.nextTime.add_day z 1
    some { s with log := s.log.open (path binaryPath s.nextTime), nextTime := nextTime }
  else some s

/-- A record of `len` bytes. -/
def write (z : Zone) (binaryPath : String) (s : DailyLog) (time : Time) (len : Nat) : Option DailyLog := do
  let s ← ready z binaryPath s
  let s ← roll z binaryPath s time
  some { s with log := s.log.write len, lines := s.lines ++ [(time, s.log.file)] }

def step (z : Zone) (binaryPath : String) (s : DailyLog) (r : Time × Nat) : Option DailyLog :=
  write z binaryPath s r.1 r.2

end DailyLog

variable {offset : Int} {t t' : Time}

/-- The milliseconds of the years 1970 to 3000. -/
def InCalendar (ms : Int) : Prop := 0 ≤ ms ∧ ms < 376565 * Ven.Time.day

/-- The date and time of a count of milliseconds. -/
def dateAt (ms : Int) : Time := .ofTm (Time.localtime_tm (gregorian 0) (ms / 1000)) (ms % 1000).toNat

theorem Time.Normal.anywhere (h : t.Normal (gregorian offset)) (offset' : Int) : t.Normal (gregorian offset') := by
  obtain ⟨c, hour, min, sec, hc, hhour, hmin, hsec, ht⟩ := h.civil
  rw [ht]
  exact normal_civil hc hhour hmin hsec h.1 offset'

theorem localtime_isSome {tt : Int} : (gregorianLocaltime offset tt).isSome ↔
    0 ≤ tt + offset ∧ (tt + offset) / 86400 < 376565 := by
  unfold gregorianLocaltime
  simp only
  split
  next h => exact ⟨fun _ => h, fun _ => rfl⟩
  next h =>
    refine ⟨fun hs => ?_, fun hs => absurd hs h⟩
    cases hs

theorem Time.Normal.inCalendar (h : t.Normal (gregorian offset)) : InCalendar t.clock := by
  obtain ⟨c, hour, min, sec, hc, hhour, hmin, hsec, ht⟩ := h.civil
  have hlt := Calendar.daysOf_lt hc
  have hms := h.1
  rw [span_years] at hlt
  rw [ht, Time.clock_civil hc hhour hmin hsec]
  unfold InCalendar Ven.Time.day
  omega

theorem dateAt_spec {ms : Int} (h : InCalendar ms) (offset : Int) :
    (dateAt ms).Normal (gregorian offset) ∧ (dateAt ms).clock = ms := by
  unfold InCalendar Ven.Time.day at h
  have hsome : (gregorianLocaltime 0 (ms / 1000)).isSome := localtime_isSome.mpr ⟨by omega, by omega⟩
  obtain ⟨tm, htm⟩ := Option.isSome_iff_exists.mp hsome
  have hdate : dateAt ms = .ofTm tm (ms % 1000).toNat := by
    unfold dateAt Time.localtime_tm gregorian
    simp only [htm]
    rfl
  rw [hdate]
  have hnormal : (Time.ofTm tm (ms % 1000).toNat).Normal (gregorian 0) := by
    refine ⟨?_, ms / 1000, tm, htm, rfl⟩
    simp only [Time.ofTm]
    omega
  refine ⟨hnormal.anywhere offset, ?_⟩
  unfold Time.clock Time.instant
  rw [Time.tm_ofTm (gregorian_inRange htm), (gregorian 0).inverse htm]
  simp only [Time.ofTm]
  omega

theorem dateAt_clock (h : t.Normal (gregorian offset)) : dateAt t.clock = t := by
  obtain ⟨hnormal, hclock⟩ := dateAt_spec h.inCalendar offset
  exact hnormal.eq_of_clock h hclock

theorem add_day_clock (h : t.Normal (gregorian offset)) {n : Int} (hn : -24855 ≤ n ∧ n ≤ 24855)
    (hin : InCalendar (Ven.Time.addDay t.clock n)) :
    ∃ t', t.add_day (gregorian offset) n = some t' ∧ t'.Normal (gregorian offset) ∧
      t'.clock = Ven.Time.addDay t.clock n := by
  have hr : Amounts.Representable (gregorian offset) t ⟨n, 0, 0, 0, 0⟩ := by
    unfold InCalendar Ven.Time.addDay Ven.Time.day at hin
    refine localtime_isSome.mpr ?_
    rw [Time.instant_gregorian]
    unfold Amounts.total
    simp only
    omega
  obtain ⟨t', hadd, hnormal, hinstant, _⟩ := Time.add_day_eq h hn hr
  refine ⟨t', hadd, hnormal, ?_⟩
  rw [Time.instant_gregorian, Time.instant_gregorian] at hinstant
  unfold Ven.Time.addDay at *
  omega

namespace DailyLog

/-- The name of the file of a minute. -/
def name (binaryPath : String) (minute : Int) : String := path binaryPath (dateAt (minute * 60000))

/-- The names of two times tell their minutes apart. -/
theorem path_inj {binaryPath : String} (h : t.Normal (gregorian offset)) (h' : t'.Normal (gregorian offset))
    (hp : path binaryPath t = path binaryPath t') : t.clock / 60000 = t'.clock / 60000 := by
  obtain ⟨c, hour, min, sec, hc, hhour, hmin, hsec, ht⟩ := h.civil
  obtain ⟨c', hour', min', sec', hc', hhour', hmin', hsec', ht'⟩ := h'.civil
  have hms := h.1
  have hms' := h'.1
  generalize t.msec = msec at ht hms
  generalize t'.msec = msec' at ht' hms'
  subst ht ht'
  have hyear := hc.year
  have hyear' := hc'.year
  have hmonth : c.month < 12 := hc.month
  have hmonth' : c'.month < 12 := hc'.month
  have hday := Nat.lt_of_lt_of_le hc.day (Calendar.monthDays_le _ _ (List.getElem_mem hc.month))
  have hday' := Nat.lt_of_lt_of_le hc'.day (Calendar.monthDays_le _ _ (List.getElem_mem hc'.month))
  have small {n : Nat} (hn : n < 2147483648) : asInt32 n = n := if_pos hn
  unfold path civil at hp
  simp only at hp
  rw [small (by omega), small (by omega), small (by omega), small (by omega), small (by omega), small (by omega),
    small (by omega), small (by omega), small (by omega), small (by omega), String.append_left_inj] at hp
  obtain ⟨hp, heqmin⟩ := append_padded (by decide) (by omega) (by omega) hp
  obtain ⟨hp, heqhour⟩ := append_padded (by decide) (by omega) (by omega) hp
  rw [String.append_left_inj] at hp
  obtain ⟨hp, heqday⟩ := append_padded (by decide) (by omega) (by omega) hp
  obtain ⟨hp, heqmonth⟩ := append_padded (by decide) (by omega) (by omega) hp
  obtain ⟨_, heqyear⟩ := append_padded (by decide) (by omega) (by omega) hp
  have hdate : c = c' := by
    obtain ⟨year, month, day⟩ := c
    obtain ⟨year', month', day'⟩ := c'
    simp only at heqday heqmonth heqyear
    rw [Calendar.Date.mk.injEq]
    omega
  subst hdate
  rw [Time.clock_civil hc hhour hmin hsec, Time.clock_civil hc hhour' hmin' hsec']
  omega

theorem name_injOn (binaryPath : String) : Set.InjOn (name binaryPath) {m | InCalendar (m * 60000)} := by
  intro m hm m' hm' h
  obtain ⟨hnormal, hclock⟩ := dateAt_spec hm 0
  obtain ⟨hnormal', hclock'⟩ := dateAt_spec hm' 0
  have hminute := path_inj hnormal hnormal' h
  rw [hclock, hclock'] at hminute
  omega

/-- A file named after a time at the beginning of a minute. -/
theorem path_eq_name (binaryPath : String) (h : t.Normal (gregorian offset)) (hmin : t.clock % 60000 = 0) :
    path binaryPath t = name binaryPath (t.clock / 60000) := by
  have hminute : t.clock / 60000 * 60000 = t.clock := by omega
  unfold name
  rw [hminute, dateAt_clock h]

variable {binaryPath : String} {s s' : DailyLog} {a a' : Ven.DailyLog}

/-- The log as the code has it, and the log that counts milliseconds. -/
structure Refines (offset : Int) (binaryPath : String) (s : DailyLog) (a : Ven.DailyLog) : Prop where
  normal : s.nextTime.Normal (gregorian offset)
  next : s.nextTime.clock = a.nextTime
  minute : a.nextTime % 60000 = 0
  room : Ven.Time.day ≤ a.nextTime
  log : s.log = a.log.rename (name binaryPath)
  within : a.log.Within {m | InCalendar (m * 60000)}
  lines : s.lines.map (fun l => (l.1.clock, l.2)) = a.lines.map fun l => (l.1, l.2.map (name binaryPath))

/-- A file is opened that is named after the time `t`. -/
theorem Refines.open (h : Refines offset binaryPath s a) (ht : t.Normal (gregorian offset)) (hmin : t.clock % 60000 = 0) :
    s.log.open (path binaryPath t) = (a.log.open (t.clock / 60000)).rename (name binaryPath) ∧
      (a.log.open (t.clock / 60000)).Within {m | InCalendar (m * 60000)} := by
  have hin : t.clock / 60000 ∈ {m : Int | InCalendar (m * 60000)} := by
    have hcal := ht.inCalendar
    have hminute : t.clock / 60000 * 60000 = t.clock := by omega
    change InCalendar (t.clock / 60000 * 60000)
    rw [hminute]
    exact hcal
  rw [h.log, path_eq_name binaryPath ht hmin, LogFile.rename_open (name_injOn binaryPath) h.within hin]
  exact ⟨rfl, h.within.open hin⟩

theorem Refines.ready (h : Refines offset binaryPath s a) :
    ∃ s', DailyLog.ready (gregorian offset) binaryPath s = some s' ∧ Refines offset binaryPath s' a.ready := by
  have hvalid : s.log.valid = a.log.valid := by
    rw [h.log]
    exact Option.isSome_map
  unfold DailyLog.ready Ven.DailyLog.ready
  rw [hvalid]
  split
  next => exact ⟨s, rfl, h⟩
  next =>
    have hcal := h.normal.inCalendar
    have hroom := h.room
    have hin : InCalendar (Ven.Time.addDay s.nextTime.clock (-1)) := by
      rw [h.next] at hcal ⊢
      unfold InCalendar Ven.Time.addDay Ven.Time.day at *
      omega
    obtain ⟨t, hadd, hnormal, hclock⟩ := add_day_clock h.normal (by decide) hin
    have hmin : t.clock % 60000 = 0 := by
      have hnext := h.minute
      rw [hclock, h.next]
      unfold Ven.Time.addDay Ven.Time.day
      omega
    obtain ⟨hopen, hwithin⟩ := h.open hnormal hmin
    rw [hclock, h.next] at hopen hwithin
    rw [hadd]
    exact ⟨_, rfl, h.normal, h.next, h.minute, h.room, hopen, hwithin, h.lines⟩

/-- Where the counting log opens the file of the next day, so does the other. -/
theorem Refines.roll (h : Refines offset binaryPath s a) {time : Time} (ht : time.Normal (gregorian offset))
    (hroom : InCalendar (Ven.Time.addDay time.clock 1)) :
    ∃ s', DailyLog.roll (gregorian offset) binaryPath s time = some s' ∧
      Refines offset binaryPath s' (if a.nextTime ≤ time.clock then
          { a with log := a.log.open (Ven.DailyLog.path a.nextTime), nextTime := Ven.Time.addDay a.nextTime 1 }
        else a) := by
  unfold DailyLog.roll
  have hge := ht.ge_iff h.normal
  rw [h.next] at hge
  by_cases hle : a.nextTime ≤ time.clock
  · rw [if_pos (hge.mpr hle), if_pos hle]
    have hin : InCalendar (Ven.Time.addDay s.nextTime.clock 1) := by
      have hlow := h.room
      rw [h.next]
      unfold InCalendar Ven.Time.addDay Ven.Time.day at *
      omega
    have hmin : s.nextTime.clock % 60000 = 0 := by
      rw [h.next]
      exact h.minute
    obtain ⟨t, hadd, hnormal, hclock⟩ := add_day_clock h.normal (by decide) hin
    obtain ⟨hopen, hwithin⟩ := h.open h.normal hmin
    rw [h.next] at hopen hwithin hclock
    rw [hadd]
    refine ⟨_, rfl, hnormal, hclock, ?_, ?_, hopen, hwithin, h.lines⟩
    · have hnext := h.minute
      simp only
      unfold Ven.Time.addDay Ven.Time.day
      omega
    · have hlow := h.room
      simp only
      unfold Ven.Time.addDay Ven.Time.day at *
      omega
  · rw [if_neg (fun hf => hle (hge.mp hf)), if_neg hle]
    exact ⟨s, rfl, h⟩

/-- A record at a time after which there is another day. -/
theorem Refines.write (h : Refines offset binaryPath s a) {time : Time} (ht : time.Normal (gregorian offset))
    (hroom : InCalendar (Ven.Time.addDay time.clock 1)) (len : Nat) :
    ∃ s', DailyLog.write (gregorian offset) binaryPath s time len = some s' ∧
      Refines offset binaryPath s' (a.write time.clock len) := by
  obtain ⟨s₁, hready, h₁⟩ := h.ready
  obtain ⟨s₂, hroll, h₂⟩ := h₁.roll ht hroom
  have hwrite (a₂ : Ven.DailyLog) (h₂ : Refines offset binaryPath s₂ a₂) : Refines offset binaryPath
      { s₂ with log := s₂.log.write len, lines := s₂.lines ++ [(time, s₂.log.file)] }
      { a₂ with log := a₂.log.write len, lines := a₂.lines ++ [(time.clock, a₂.log.file)] } := by
    refine ⟨h₂.normal, h₂.next, h₂.minute, h₂.room, ?_, h₂.within.write len, ?_⟩
    · rw [h₂.log]
      exact (LogFile.rename_write (name_injOn binaryPath) h₂.within len).symm
    · rw [List.map_append, List.map_append, h₂.lines, h₂.log]
      rfl
  refine ⟨_, ?_, hwrite _ h₂⟩
  rw [DailyLog.write, hready, Option.bind_eq_bind, Option.bind_some, hroll]
  rfl

theorem Refines.exec (h : Refines offset binaryPath s a) {rs : List (Time × Nat)}
    (ht : ∀ r ∈ rs, r.1.Normal (gregorian offset) ∧ InCalendar (Ven.Time.addDay r.1.clock 1)) :
    ∃ s' a', Machine.exec (step (gregorian offset) binaryPath) s rs = some s' ∧
      Machine.exec Ven.DailyLog.step a (rs.map fun r => (r.1.clock, r.2)) = some a' ∧
      Refines offset binaryPath s' a' := by
  induction rs generalizing s a with
  | nil => exact ⟨s, a, rfl, rfl, h⟩
  | cons r rs ih =>
    obtain ⟨hr, hrest⟩ := List.forall_mem_cons.mp ht
    obtain ⟨mid, hmid, hm⟩ := h.write hr.1 hr.2 r.2
    obtain ⟨s', a', hs', ha', hend⟩ := ih hm hrest
    refine ⟨s', a', ?_, ha', hend⟩
    rw [Machine.exec, step, hmid]
    exact hs'

/-- `today` is a time of the same day. -/
theorem today_spec {now : Time} (h : now.Normal (gregorian offset)) {hour min : Nat} (hhour : hour < 24) (hmin : min < 60) :
    (today now hour min).Normal (gregorian offset) ∧
      (today now hour min).clock = Ven.Time.today now.clock hour min := by
  obtain ⟨c, hour', min', sec', hc, hhour', hmin', hsec', ht⟩ := h.civil
  have hms := h.1
  have htoday : today now hour min = civil c hour min 0 0 := by
    rw [ht]
    unfold today civil u32
    simp only [Time.mk.injEq, true_and, and_true]
    omega
  rw [htoday]
  refine ⟨normal_civil hc hhour hmin (by decide) (by decide) offset, ?_⟩
  rw [Time.clock_civil hc hhour hmin (by decide), ht, Time.clock_civil hc hhour' hmin' hsec']
  unfold Ven.Time.today Ven.Time.day
  omega

/-- The constructor with its two readings of the clock is that of the log that reads it once, at one of the two. -/
theorem refines_init (binaryPath : String) {now now' : Time} (h : now.Normal (gregorian offset))
    (h' : now'.Normal (gregorian offset)) (hle : now.clock ≤ now'.clock)
    (hsoon : now'.clock ≤ Ven.Time.addDay now.clock 1) (hlow : Ven.Time.day ≤ now.clock)
    (hroom : InCalendar (Ven.Time.addDay now'.clock 1)) {hour min : Nat} (hhour : hour < 24) (hmin : min < 60) :
    ∃ s n, init (gregorian offset) now now' hour min = some s ∧ (n = now.clock ∨ n = now'.clock) ∧
      Refines offset binaryPath s (Ven.DailyLog.init n hour min) := by
  obtain ⟨hnormal, hclock⟩ := today_spec h hhour hmin
  have hmidnight : Ven.Time.day ≤ Ven.Time.today now.clock hour min := by
    unfold Ven.Time.today Ven.Time.day at *
    omega
  have hminute : Ven.Time.today now.clock hour min % 60000 = 0 := by
    unfold Ven.Time.today Ven.Time.day
    omega
  have begins {t : Time} (ht : t.Normal (gregorian offset)) {n : Int} (hc : t.clock = (Ven.DailyLog.init n hour min).nextTime)
      (hmin : t.clock % 60000 = 0) (hday : Ven.Time.day ≤ t.clock) :
      Refines offset binaryPath ⟨t, LogFile.start, []⟩ (Ven.DailyLog.init n hour min) :=
    ⟨ht, hc, hc ▸ hmin, hc ▸ hday, rfl, ⟨fun _ hf => (Option.some_ne_none _ hf.symm).elim, fun _ hf => absurd hf List.not_mem_nil⟩,
      rfl⟩
  have hle_iff := hnormal.le_iff h'
  rw [hclock] at hle_iff
  have hinit : init (gregorian offset) now now' hour min = (if (today now hour min).le now' then
      (today now hour min).add_day (gregorian offset) 1 else some (today now hour min)).map fun t =>
        ⟨t, LogFile.start, []⟩ := rfl
  rw [hinit]
  by_cases hpast : Ven.Time.today now.clock hour min ≤ now'.clock
  · rw [if_pos (hle_iff.mpr hpast)]
    have hin : InCalendar (Ven.Time.addDay (today now hour min).clock 1) := by
      rw [hclock]
      unfold InCalendar Ven.Time.addDay Ven.Time.day at *
      omega
    obtain ⟨t, hadd, ht, hct⟩ := add_day_clock hnormal (by decide) hin
    rw [hclock] at hct
    have hmint : t.clock % 60000 = 0 := by
      rw [hct]
      unfold Ven.Time.addDay Ven.Time.day
      omega
    have hdayt : Ven.Time.day ≤ t.clock := by
      rw [hct]
      unfold Ven.Time.addDay Ven.Time.day at *
      omega
    rw [hadd]
    by_cases hfirst : Ven.Time.today now.clock hour min ≤ now.clock
    · refine ⟨_, now.clock, rfl, Or.inl rfl, begins ht ?_ hmint hdayt⟩
      rw [hct, Ven.DailyLog.init, if_pos hfirst]
    · -- the clock has passed the day's change between the two readings, and perhaps midnight
      refine ⟨_, now'.clock, rfl, Or.inr rfl, begins ht ?_ hmint hdayt⟩
      rw [hct, Ven.DailyLog.init]
      simp only
      unfold Ven.Time.today Ven.Time.addDay Ven.Time.day at *
      split
      next => omega
      next => omega
  · rw [if_neg (fun hf => hpast (hle_iff.mp hf))]
    refine ⟨_, now.clock, rfl, Or.inl rfl, begins hnormal ?_ (by rw [hclock]; exact hminute) (by rw [hclock]; exact hmidnight)⟩
    rw [hclock, Ven.DailyLog.init, if_neg (fun hf => hpast (hf.trans hle))]

/-- A daily log with the calendar, the comparisons and `add_day` of `Time` does what the log that counts milliseconds
does, and its files are named after the minutes of that log, no two of them alike. -/
theorem daily_log_refines (binaryPath : String) {now now' : Time} (h : now.Normal (gregorian offset))
    (h' : now'.Normal (gregorian offset)) (hle : now.clock ≤ now'.clock)
    (hsoon : now'.clock ≤ Ven.Time.addDay now.clock 1) (hlow : Ven.Time.day ≤ now.clock)
    (hroom : InCalendar (Ven.Time.addDay now'.clock 1)) {hour min : Nat} (hhour : hour < 24) (hmin : min < 60)
    {rs : List (Time × Nat)}
    (ht : ∀ r ∈ rs, r.1.Normal (gregorian offset) ∧ InCalendar (Ven.Time.addDay r.1.clock 1)) :
    Set.InjOn (name binaryPath) {m | InCalendar (m * 60000)} ∧
    ∃ s₀ s n a, init (gregorian offset) now now' hour min = some s₀ ∧
      Machine.exec (step (gregorian offset) binaryPath) s₀ rs = some s ∧
      (n = now.clock ∨ n = now'.clock) ∧
      Machine.exec Ven.DailyLog.step (Ven.DailyLog.init n hour min) (rs.map fun r => (r.1.clock, r.2)) = some a ∧
      s.log = a.log.rename (name binaryPath) ∧
      s.lines.map (fun l => (l.1.clock, l.2)) = a.lines.map fun l => (l.1, l.2.map (name binaryPath)) := by
  refine ⟨name_injOn binaryPath, ?_⟩
  obtain ⟨s₀, n, hinit, hn, hstart⟩ := refines_init binaryPath h h' hle hsoon hlow hroom hhour hmin
  obtain ⟨s, a, hs, ha, hend⟩ := hstart.exec ht
  exact ⟨s₀, s, n, a, hinit, hs, hn, ha, hend.log, hend.lines⟩

/-- A record in the first hour of the third millennium. -/
theorem daily_log_refines_sample :
    ∃ s₀ s, init (gregorian 0) (civil ⟨30, 11, 30⟩ 23 0 0 0) (civil ⟨30, 11, 30⟩ 23 0 0 0) (0 : Nat) (0 : Nat) = some s₀ ∧
      Machine.exec (step (gregorian 0) "ven") s₀ [(civil ⟨31, 0, 0⟩ 0 0 0 7, 30)] = some s ∧
      s.lines.map (fun l => (l.1.clock, l.2)) = [(978307200007, some (name "ven" 16305120))] := by
  have hbefore : (civil ⟨30, 11, 30⟩ 23 0 0 0).Normal (gregorian 0) :=
    normal_civil ⟨by decide, by decide, by decide⟩ (by decide) (by decide) (by decide) (by decide) 0
  have hafter : (civil ⟨31, 0, 0⟩ 0 0 0 7).Normal (gregorian 0) :=
    normal_civil ⟨by decide, by decide, by decide⟩ (by decide) (by decide) (by decide) (by decide) 0
  have hclock : (civil ⟨30, 11, 30⟩ 23 0 0 0).clock = 978303600000 := by decide
  have hclock' : (civil ⟨31, 0, 0⟩ 0 0 0 7).clock = 978307200007 := by decide
  have htimes : ∀ r ∈ [(civil ⟨31, 0, 0⟩ 0 0 0 7, 30)], r.1.Normal (gregorian 0) ∧
      InCalendar (Ven.Time.addDay r.1.clock 1) := by
    refine List.forall_mem_singleton.mpr ⟨hafter, ?_⟩
    rw [hclock']
    exact ⟨by decide, by decide⟩
  have hwrote : (Machine.exec Ven.DailyLog.step (Ven.DailyLog.init 978303600000 0 0) [(978307200007, 30)]).map
      (fun a => a.lines) = some [(978307200007, some 16305120)] := by decide
  obtain ⟨_, s₀, s, n, a, hinit, hs, hn, ha, _, hlines⟩ := daily_log_refines "ven" hbefore hbefore le_rfl
    (by rw [hclock]; decide) (by rw [hclock]; decide) (by rw [hclock]; exact ⟨by decide, by decide⟩)
    (show 0 < 24 by decide) (show 0 < 60 by decide) htimes
  rw [or_self, hclock] at hn
  rw [hn] at ha
  rw [List.map_singleton, hclock'] at ha
  rw [ha] at hwrote
  have hfile : a.lines = [(978307200007, some 16305120)] := Option.some.inj hwrote
  refine ⟨s₀, s, hinit, hs, ?_⟩
  rw [hlines, hfile]
  rfl

end DailyLog

end Windows

end Ven
