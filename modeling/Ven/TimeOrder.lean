import Ven.TimeAdd

namespace Ven

namespace Calendar

variable {first n : Nat} {c c' : Date}

/-- A place in one segment is before any place in a later one. -/
theorem origin_lt {ls : List Nat} {j k r : Nat} (hj : j < ls.length) (hr : r < ls[j]) (hjk : j < k) :
    origin ls j + r < origin ls k := by
  induction ls generalizing j k with
  | nil => cases hj
  | cons l ls ih =>
    obtain ⟨k, rfl⟩ := Nat.exists_eq_succ_of_ne_zero (Nat.ne_of_gt (Nat.zero_lt_of_lt hjk))
    rw [origin_succ]
    cases j with
    | zero =>
      have hl : r < l := hr
      simp only [origin, List.take_zero, List.sum_nil]
      omega
    | succ j =>
      have hrest := ih (Nat.lt_of_succ_lt_succ hj) hr (Nat.lt_of_succ_lt_succ hjk)
      rw [origin_succ]
      omega

theorem daysOf_lt_of_year (h : c.Valid first n) (hy : c.year < c'.year) : daysOf first n c < daysOf first n c' := by
  obtain ⟨hk, hd⟩ := h.place_year
  have hlt := origin_lt hk hd hy
  unfold daysOf
  omega

theorem daysOf_lt_of_month (h : c.Valid first n) (hy : c.year = c'.year) (hm : c.month < c'.month) :
    daysOf first n c < daysOf first n c' := by
  have hlt := origin_lt h.month h.day hm
  unfold daysOf
  rw [← hy]
  omega

theorem daysOf_lt_of_day (hy : c.year = c'.year) (hm : c.month = c'.month) (hd : c.day < c'.day) :
    daysOf first n c < daysOf first n c' := by
  unfold daysOf
  rw [← hy, ← hm]
  omega

theorem valid_dateOf {d : Nat} (h : d < span first n) : (dateOf first n d).Valid first n := by
  obtain ⟨hm, hd⟩ := dateOf_month_lt h
  exact ⟨dateOf_year_lt h, hm, hd⟩

end Calendar

namespace Windows

namespace Time

def ne (t rhs : Time) : Bool :=
  t.msec != rhs.msec || t.sec != rhs.sec || t.min != rhs.min || t.hour != rhs.hour || t.day != rhs.day ||
    t.mon != rhs.mon || t.year != rhs.year

def eq (t rhs : Time) : Bool := !t.ne rhs

def lt (t rhs : Time) : Bool :=
  if t.year < rhs.year then true else if t.year > rhs.year then false else
  if t.mon < rhs.mon then true else if t.mon > rhs.mon then false else
  if t.day < rhs.day then true else if t.day > rhs.day then false else
  if t.hour < rhs.hour then true else if t.hour > rhs.hour then false else
  if t.min < rhs.min then true else if t.min > rhs.min then false else
  if t.sec < rhs.sec then true else if t.sec > rhs.sec then false else
  if t.msec < rhs.msec then true else false

def gt (t rhs : Time) : Bool := !t.lt rhs && !t.eq rhs

def le (t rhs : Time) : Bool := t.eq rhs || t.lt rhs

def ge (t rhs : Time) : Bool := t.eq rhs || t.gt rhs

/-- The milliseconds of the local clock since its first midnight. -/
def clock (t : Time) : Int := t.instant (gregorian 0)

variable {t t' : Time} {offset : Int}

theorem instant_gregorian (offset : Int) (t : Time) : t.instant (gregorian offset) = t.clock - offset * 1000 := by
  unfold clock instant gregorian gregorianMktime
  simp only
  omega

theorem eq_iff : t.eq t' = true ↔ t = t' := by
  obtain ⟨year, mon, day, hour, min, sec, msec⟩ := t
  obtain ⟨year', mon', day', hour', min', sec', msec'⟩ := t'
  unfold eq ne
  simp only [Bool.not_eq_true', Bool.or_eq_false_iff, bne_eq_false_iff_eq, mk.injEq]
  constructor
  · rintro ⟨⟨⟨⟨⟨⟨hms, hs⟩, hmin⟩, hh⟩, hd⟩, hmon⟩, hy⟩
    exact ⟨hy, hmon, hd, hh, hmin, hs, hms⟩
  · rintro ⟨hy, hmon, hd, hh, hmin, hs, hms⟩
    exact ⟨⟨⟨⟨⟨⟨hms, hs⟩, hmin⟩, hh⟩, hd⟩, hmon⟩, hy⟩

/-- The rest of the fields counts where one field is the same. -/
theorem field_false {x y : Nat} {rest : Bool} :
    (if x < y then true else if x > y then false else rest) = false ↔ y < x ∨ x = y ∧ rest = false := by
  rcases Nat.lt_trichotomy x y with h | h | h
  · rw [if_pos h]
    refine ⟨fun hf => ?_, fun hf => by omega⟩
    cases hf
  · rw [if_neg (by omega), if_neg (by omega)]
    exact ⟨fun hf => Or.inr ⟨h, hf⟩, fun hf => (hf.resolve_left (by omega)).2⟩
  · rw [if_neg (by omega), if_pos h]
    exact ⟨fun _ => Or.inl h, fun _ => rfl⟩

theorem eq_of_not_lt (h : t.lt t' = false) (h' : t'.lt t = false) : t = t' := by
  obtain ⟨year, mon, day, hour, min, sec, msec⟩ := t
  obtain ⟨year', mon', day', hour', min', sec', msec'⟩ := t'
  simp only [lt, field_false, ite_eq_right_iff, Bool.true_eq_false, imp_false] at h h'
  rw [mk.injEq]
  omega

/-- A normalised time is a time of day on a date of the calendar. -/
theorem Normal.civil (h : t.Normal (gregorian offset)) :
    ∃ c hour min sec, c.Valid 1970 1031 ∧ hour < 24 ∧ min < 60 ∧ sec < 60 ∧ t = Windows.civil c hour min sec t.msec := by
  obtain ⟨hms, tt, tm, htt, ht⟩ := h
  obtain ⟨h0, h1, htm⟩ := gregorianLocaltime_eq htt
  have hspan : ((tt + offset) / 86400).toNat < Calendar.span 1970 1031 := by
    rw [span_years]
    omega
  refine ⟨Calendar.dateOf 1970 1031 ((tt + offset) / 86400).toNat, ((tt + offset) % 86400 / 3600).toNat,
    ((tt + offset) % 3600 / 60).toNat, ((tt + offset) % 60).toNat, Calendar.valid_dateOf hspan, ?_, ?_, ?_, ?_⟩
  · omega
  · omega
  · omega
  · obtain ⟨hyear, hmonth, hday⟩ := Calendar.dateOf_bounds hspan
    rw [ht, htm]
    unfold Windows.civil ofTm u32
    simp only [mk.injEq, and_true]
    omega

theorem clock_civil {c : Calendar.Date} (hc : c.Valid 1970 1031) {hour min sec msec : Nat} (hhour : hour < 24)
    (hmin : min < 60) (hsec : sec < 60) :
    (Windows.civil c hour min sec msec).clock =
      (((Calendar.daysOf 1970 1031 c * 24 + hour) * 60 + min) * 60 + sec) * 1000 + msec := by
  have hyear := hc.year
  have hmonth : c.month < 12 := hc.month
  have hday := Nat.lt_of_lt_of_le hc.day (Calendar.monthDays_le _ _ (List.getElem_mem hc.month))
  have htm : (Windows.civil c hour min sec msec).tm = ⟨c.year + 70, c.month, c.day + 1, hour, min, sec⟩ := by
    unfold Windows.civil tm asInt32 u32
    simp only [Tm.mk.injEq]
    omega
  unfold clock instant gregorian gregorianMktime
  simp only [htm]
  have hy : ((c.year : Int) + 70 - 70).toNat = c.year := by omega
  have hd : ((c.day : Int) + 1 - 1).toNat = c.day := by omega
  rw [hy, hd, Int.toNat_natCast]
  change ((Calendar.daysOf 1970 1031 c : Nat) * 86400 + (hour : Int) * 3600 + min * 60 + sec - 0) * 1000 + msec = _
  omega

theorem Normal.clock_lt (h : t.Normal (gregorian offset)) (h' : t'.Normal (gregorian offset)) (hlt : t.lt t' = true) :
    t.clock < t'.clock := by
  obtain ⟨c, hour, min, sec, hc, hhour, hmin, hsec, ht⟩ := h.civil
  obtain ⟨c', hour', min', sec', hc', hhour', hmin', hsec', ht'⟩ := h'.civil
  have hms := h.1
  have hms' := h'.1
  generalize t.msec = msec at ht hms
  generalize t'.msec = msec' at ht' hms'
  subst ht ht'
  rw [clock_civil hc hhour hmin hsec, clock_civil hc' hhour' hmin' hsec']
  have later (hd : Calendar.daysOf 1970 1031 c < Calendar.daysOf 1970 1031 c') :
      ((((Calendar.daysOf 1970 1031 c : Int) * 24 + hour) * 60 + min) * 60 + sec) * 1000 + msec <
        (((Calendar.daysOf 1970 1031 c' * 24 + hour') * 60 + min') * 60 + sec') * 1000 + msec' := by omega
  unfold lt Windows.civil at hlt
  simp only at hlt
  by_cases hy : c.year = c'.year
  · by_cases hm : c.month = c'.month
    · by_cases hd : c.day = c'.day
      · have hsame : c = c' := by
          obtain ⟨year, month, day⟩ := c
          obtain ⟨year', month', day'⟩ := c'
          exact (Calendar.Date.mk.injEq ..).mpr ⟨hy, hm, hd⟩
        rw [← hsame] at hlt ⊢
        simp only [lt_irrefl, gt_iff_lt, if_false] at hlt
        grind
      · refine later (Calendar.daysOf_lt_of_day hy hm ?_)
        grind
    · refine later (Calendar.daysOf_lt_of_month hc hy ?_)
      grind
  · refine later (Calendar.daysOf_lt_of_year hc ?_)
    grind

theorem Normal.lt_iff (h : t.Normal (gregorian offset)) (h' : t'.Normal (gregorian offset)) :
    t.lt t' = true ↔ t.clock < t'.clock := by
  refine ⟨h.clock_lt h', fun hlt => ?_⟩
  by_contra hnot
  cases hback : t'.lt t with
  | true =>
    have hgt := h'.clock_lt h hback
    omega
  | false =>
    rw [eq_of_not_lt (Bool.eq_false_iff.mpr hnot) hback] at hlt
    exact lt_irrefl _ hlt

/-- A normalised time is known by its instant. -/
theorem Normal.eq_of_clock (h : t.Normal (gregorian offset)) (h' : t'.Normal (gregorian offset))
    (hc : t.clock = t'.clock) : t = t' := by
  refine eq_of_not_lt (Bool.eq_false_iff.mpr fun hlt => ?_) (Bool.eq_false_iff.mpr fun hlt => ?_)
  · have hless := h.clock_lt h' hlt
    omega
  · have hless := h'.clock_lt h hlt
    omega

theorem Normal.eq_iff_clock (h : t.Normal (gregorian offset)) (h' : t'.Normal (gregorian offset)) :
    t.eq t' = true ↔ t.clock = t'.clock := by
  rw [eq_iff]
  exact ⟨fun he => by rw [he], h.eq_of_clock h'⟩

theorem Normal.ge_iff (h : t.Normal (gregorian offset)) (h' : t'.Normal (gregorian offset)) :
    t.ge t' = true ↔ t'.clock ≤ t.clock := by
  unfold ge gt
  rw [Bool.or_eq_true, Bool.and_eq_true, Bool.not_eq_true', Bool.not_eq_true', ← Bool.not_eq_true,
    ← Bool.not_eq_true, h.lt_iff h', h.eq_iff_clock h']
  omega

theorem Normal.le_iff (h : t.Normal (gregorian offset)) (h' : t'.Normal (gregorian offset)) :
    t.le t' = true ↔ t.clock ≤ t'.clock := by
  unfold le
  rw [Bool.or_eq_true, h.lt_iff h', h.eq_iff_clock h']
  omega

/-- The operators compare normalised times as the instants that they stand for. -/
theorem order_of_instants (h : t.Normal (gregorian offset)) (h' : t'.Normal (gregorian offset)) :
    (t.lt t' = true ↔ t.instant (gregorian offset) < t'.instant (gregorian offset)) ∧
    (t.gt t' = true ↔ t'.instant (gregorian offset) < t.instant (gregorian offset)) ∧
    (t.le t' = true ↔ t.instant (gregorian offset) ≤ t'.instant (gregorian offset)) ∧
    (t.ge t' = true ↔ t'.instant (gregorian offset) ≤ t.instant (gregorian offset)) ∧
    (t.eq t' = true ↔ t.instant (gregorian offset) = t'.instant (gregorian offset)) ∧
    (t.ne t' = true ↔ t.instant (gregorian offset) ≠ t'.instant (gregorian offset)) := by
  have hgt : t.gt t' = true ↔ t'.clock < t.clock := by
    unfold gt
    rw [Bool.and_eq_true, Bool.not_eq_true', Bool.not_eq_true', ← Bool.not_eq_true, ← Bool.not_eq_true, h.lt_iff h',
      h.eq_iff_clock h']
    omega
  have hne : t.ne t' = true ↔ t.clock ≠ t'.clock := by
    rw [← Bool.not_eq_false, ne_eq, ← h.eq_iff_clock h', eq, Bool.not_eq_true']
  rw [instant_gregorian, instant_gregorian, h.lt_iff h', hgt, h.le_iff h', h.ge_iff h', h.eq_iff_clock h', hne]
  omega

/-- The last millisecond of a year and the first of the next. -/
theorem order_of_instants_sample :
    (civil ⟨30, 11, 30⟩ 23 59 59 999).lt (civil ⟨31, 0, 0⟩ 0 0 0 0) = true ∧
    (civil ⟨30, 11, 30⟩ 23 59 59 999).instant (gregorian 0) < (civil ⟨31, 0, 0⟩ 0 0 0 0).instant (gregorian 0) := by
  have hlast : (civil ⟨30, 11, 30⟩ 23 59 59 999).Normal (gregorian 0) :=
    normal_civil ⟨by decide, by decide, by decide⟩ (by decide) (by decide) (by decide) (by decide) 0
  have hfirst : (civil ⟨31, 0, 0⟩ 0 0 0 0).Normal (gregorian 0) :=
    normal_civil ⟨by decide, by decide, by decide⟩ (by decide) (by decide) (by decide) (by decide) 0
  have hlt : (civil ⟨30, 11, 30⟩ 23 59 59 999).lt (civil ⟨31, 0, 0⟩ 0 0 0 0) = true := by decide
  exact ⟨hlt, (order_of_instants hlast hfirst).1.mp hlt⟩

end Time

end Windows

end Ven
