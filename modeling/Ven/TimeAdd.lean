import Ven.Calendar
import Ven.DailyLog
import Ven.RollingLog
import Ven.Word
import Mathlib.Algebra.Ring.Int.Defs

namespace Ven.Windows

def Int32 (z : Int) : Prop := -2147483648 ≤ z ∧ z < 2147483648

instance : DecidablePred Int32 := fun _ => inferInstanceAs (Decidable (_ ∧ _))

/-- A product of two `int`s. One that overflows has no value. -/
def imul (a b : Int) : Option Int := if Int32 (a * b) then some (a * b) else none

theorem asInt32_u32 {z : Int} (h : Int32 z) : asInt32 (u32 z) = z := by
  unfold Int32 at h
  unfold asInt32 u32
  split
  next => omega
  next => omega

theorem not_int32_mul {a k : Int} (hk : 1 ≤ k) (ha : ¬Int32 a) : ¬Int32 (a * k) := by
  rcases Int.lt_or_le a 0 with hneg | hpos
  · have hle : a * k ≤ a * 1 := Int.mul_le_mul_of_nonpos_left (Int.le_of_lt hneg) hk
    unfold Int32 at *
    omega
  · have hle : a * 1 ≤ a * k := Int.mul_le_mul_of_nonneg_left hk hpos
    unfold Int32 at *
    omega

theorem one_le_prod {ks : List Int} (hks : ∀ k ∈ ks, 1 ≤ k) : 1 ≤ ks.prod := by
  induction ks with
  | nil => simp
  | cons k ks ih =>
    have hk : 1 ≤ k := hks k List.mem_cons_self
    have hprod := ih fun k h => hks k (List.mem_cons_of_mem _ h)
    rw [List.prod_cons]
    have hmul : 1 * 1 ≤ k * ks.prod := Int.mul_le_mul hk hprod (by omega) (by omega)
    omega

/-- A product whose factors are positive overflows on the way only if the whole product does. -/
theorem foldlM_imul {ks : List Int} (hks : ∀ k ∈ ks, 1 ≤ k) {n : Int} (hn : Int32 n) :
    ks.foldlM imul n = if Int32 (n * ks.prod) then some (n * ks.prod) else none := by
  induction ks generalizing n with
  | nil => simp [hn]
  | cons k ks ih =>
    have hks' : ∀ k ∈ ks, 1 ≤ k := fun k h => hks k (List.mem_cons_of_mem _ h)
    rw [List.foldlM_cons, List.prod_cons, ← Int.mul_assoc]
    by_cases hnk : Int32 (n * k)
    · rw [imul, if_pos hnk]
      exact ih hks' hnk
    · have hout : ¬Int32 (n * k * ks.prod) := not_int32_mul (one_le_prod hks') hnk
      rw [imul, if_neg hnk, if_neg hout]
      rfl

/-- The fields of `struct tm` that are read. -/
structure Tm where
  year : Int
  mon : Int
  mday : Int
  hour : Int
  min : Int
  sec : Int
deriving DecidableEq

/-- The ranges of the fields that `localtime_s` sets. -/
structure Tm.InRange (tm : Tm) : Prop where
  year : -1900 ≤ tm.year ∧ tm.year + 1900 < 2147483648
  mon : 0 ≤ tm.mon ∧ tm.mon ≤ 11
  mday : 1 ≤ tm.mday ∧ tm.mday ≤ 31
  hour : 0 ≤ tm.hour ∧ tm.hour ≤ 23
  min : 0 ≤ tm.min ∧ tm.min ≤ 59
  sec : 0 ≤ tm.sec ∧ tm.sec ≤ 60

/-- `mktime` and `localtime_s` in a zone of fixed offset. Times with no date are refused. -/
structure Zone where
  mktime : Tm → Int
  localtime_s : Int → Option Tm
  inverse : ∀ {tt tm}, localtime_s tt = some tm → mktime tm = tt
  inRange : ∀ {tt tm}, localtime_s tt = some tm → tm.InRange

structure Time where
  year : Nat
  mon : Nat
  day : Nat
  hour : Nat
  min : Nat
  sec : Nat
  msec : Nat
deriving DecidableEq

namespace Time

/-- The `tm` that `add` fills. -/
def tm (t : Time) : Tm where
  year := asInt32 (u32 (t.year - 1900))
  mon := asInt32 (u32 (t.mon - 1))
  mday := asInt32 t.day
  hour := asInt32 t.hour
  min := asInt32 t.min
  sec := asInt32 t.sec

/-- The fields that `add` takes from a `tm`. -/
def ofTm (tm : Tm) (msec : Nat) : Time where
  year := u32 (tm.year + 1900)
  mon := u32 (tm.mon + 1)
  day := u32 tm.mday
  hour := u32 tm.hour
  min := u32 tm.min
  sec := u32 tm.sec
  msec := msec

/-- A `tm` that `localtime_s` could not fill has -1 in each field. -/
def localtime_tm (z : Zone) (tt : Int) : Tm := (z.localtime_s tt).getD ⟨-1, -1, -1, -1, -1, -1⟩

/-- `if (n != 0) tt += n * k1 * k2 …` -/
def plus (tt n : Int) (ks : List Int) : Option Int :=
  if n ≠ 0 then do
    let p ← ks.foldlM imul n
    some (tt + p)
  else some tt

def add (z : Zone) (t : Time) (day hour min sec msec : Int) : Option Time := do
  let tt := z.mktime t.tm
  let ms := u32 (t.msec + msec)
  let tt := if 1000 ≤ ms then tt + (ms / 1000 : Nat) else tt
  let ms := if 1000 ≤ ms then ms % 1000 else ms
  let tt ← plus tt day [60, 60, 24]
  let tt ← plus tt hour [60, 60]
  let tt ← plus tt min [60]
  let tt ← plus tt sec []
  some (ofTm (localtime_tm z tt) ms)

def add_day (z : Zone) (t : Time) (day : Int) : Option Time := add z t day 0 0 0 0

/-- The milliseconds since the zone's origin. -/
def instant (z : Zone) (t : Time) : Int := z.mktime t.tm * 1000 + t.msec

/-- The fields are those of a date. -/
def Normal (z : Zone) (t : Time) : Prop :=
  t.msec < 1000 ∧ ∃ tt tm, z.localtime_s tt = some tm ∧ t = ofTm tm t.msec

end Time

/-- The amounts of one `add`. -/
structure Amounts where
  day : Int
  hour : Int
  min : Int
  sec : Int
  msec : Int
deriving DecidableEq

namespace Amounts

def neg (a : Amounts) : Amounts := ⟨-a.day, -a.hour, -a.min, -a.sec, -a.msec⟩

def total (a : Amounts) : Int := (((a.day * 24 + a.hour) * 60 + a.min) * 60 + a.sec) * 1000 + a.msec

/-- Each amount is an `int32_t`. -/
def Ints (a : Amounts) : Prop := Int32 a.day ∧ Int32 a.hour ∧ Int32 a.min ∧ Int32 a.sec ∧ Int32 a.msec

instance : DecidablePred Ints := fun _ => inferInstanceAs (Decidable (_ ∧ _))

def addTo (z : Zone) (t : Time) (a : Amounts) : Option Time := t.add z a.day a.hour a.min a.sec a.msec

/-- The amounts in seconds fit an `int`, and the milliseconds need no borrow and, if the amounts can be taken back, no
carry. -/
structure Within (t : Time) (a : Amounts) : Prop where
  day : Int32 (a.day * 86400)
  hour : Int32 (a.hour * 3600)
  min : Int32 (a.min * 60)
  borrow : 0 ≤ t.msec + a.msec
  carry : t.msec + a.msec < 1000 ∨ a.sec = -2147483648

/-- The date of the sum can be represented. -/
def Representable (z : Zone) (t : Time) (a : Amounts) : Prop :=
  (z.localtime_s ((t.instant z + a.total) / 1000)).isSome

instance (z : Zone) (t : Time) (a : Amounts) : Decidable (Representable z t a) := inferInstanceAs (Decidable (_ = true))

/-- `add` moves the instant by the amounts, to a normalised time from which the negated amounts lead back. -/
def Exact (z : Zone) (t : Time) (a : Amounts) : Prop :=
  ∃ t', a.addTo z t = some t' ∧ t'.instant z = t.instant z + a.total ∧ t'.Normal z ∧
    (a.neg.Ints → a.neg.addTo z t' = some t)

end Amounts

/-- The days of the years 1970 to 3000. -/
theorem span_years : Calendar.span 1970 1031 = 376565 := by decide +kernel

/-- `mktime` in the Gregorian calendar, `offset` seconds from UTC. -/
def gregorianMktime (offset : Int) (tm : Tm) : Int :=
  (Calendar.daysOf 1970 1031 ⟨(tm.year - 70).toNat, tm.mon.toNat, (tm.mday - 1).toNat⟩ : Nat) * 86400 +
    tm.hour * 3600 + tm.min * 60 + tm.sec - offset

def gregorianLocaltime (offset tt : Int) : Option Tm :=
  let s := tt + offset
  if 0 ≤ s ∧ s / 86400 < 376565 then
    let c := Calendar.dateOf 1970 1031 (s / 86400).toNat
    some ⟨c.year + 70, c.month, c.day + 1, s % 86400 / 3600, s % 3600 / 60, s % 60⟩
  else none

theorem gregorianLocaltime_eq {offset tt : Int} {tm : Tm} (h : gregorianLocaltime offset tt = some tm) :
    0 ≤ tt + offset ∧ (tt + offset) / 86400 < 376565 ∧
      tm = ⟨(Calendar.dateOf 1970 1031 ((tt + offset) / 86400).toNat).year + 70,
        (Calendar.dateOf 1970 1031 ((tt + offset) / 86400).toNat).month,
        (Calendar.dateOf 1970 1031 ((tt + offset) / 86400).toNat).day + 1,
        (tt + offset) % 86400 / 3600, (tt + offset) % 3600 / 60, (tt + offset) % 60⟩ := by
  unfold gregorianLocaltime at h
  simp only at h
  split at h
  next hs => exact ⟨hs.1, hs.2, (Option.some.inj h).symm⟩
  next => cases h

theorem gregorian_inverse {offset tt : Int} {tm : Tm} (h : gregorianLocaltime offset tt = some tm) :
    gregorianMktime offset tm = tt := by
  obtain ⟨h0, _, htm⟩ := gregorianLocaltime_eq h
  subst htm
  have hdays := Calendar.daysOf_dateOf 1970 1031 ((tt + offset) / 86400).toNat
  generalize Calendar.dateOf 1970 1031 ((tt + offset) / 86400).toNat = c at hdays
  have hyear : ((c.year : Int) + 70 - 70).toNat = c.year := by omega
  have hmon : (c.month : Int).toNat = c.month := by omega
  have hday : ((c.day : Int) + 1 - 1).toNat = c.day := by omega
  unfold gregorianMktime
  simp only [hyear, hmon, hday]
  rw [hdays]
  omega

theorem gregorian_inRange {offset tt : Int} {tm : Tm} (h : gregorianLocaltime offset tt = some tm) : tm.InRange := by
  obtain ⟨h0, h1, htm⟩ := gregorianLocaltime_eq h
  subst htm
  have hspan : ((tt + offset) / 86400).toNat < Calendar.span 1970 1031 := by
    rw [span_years]
    omega
  obtain ⟨hyear, hmonth, hday⟩ := Calendar.dateOf_bounds hspan
  refine ⟨?_, ?_, ?_, ?_, ?_, ?_⟩
  all_goals simp only
  all_goals omega

def gregorian (offset : Int) : Zone where
  mktime := gregorianMktime offset
  localtime_s := gregorianLocaltime offset
  inverse := gregorian_inverse
  inRange := gregorian_inRange

/-- The time of day `s` on a date from 1970 on. -/
def civil (c : Calendar.Date) (hour min sec msec : Nat) : Time :=
  ⟨c.year + 1970, c.month + 1, c.day + 1, hour, min, sec, msec⟩

theorem normal_civil {c : Calendar.Date} (hc : c.Valid 1970 1031) {hour min sec msec : Nat} (hhour : hour < 24)
    (hmin : min < 60) (hsec : sec < 60) (hmsec : msec < 1000) (offset : Int) :
    (civil c hour min sec msec).Normal (gregorian offset) := by
  have hlt := Calendar.daysOf_lt hc
  rw [span_years] at hlt
  have hdate := Calendar.dateOf_daysOf hc
  generalize hd : Calendar.daysOf 1970 1031 c = d at hlt hdate
  have hloc : gregorianLocaltime offset (d * 86400 + hour * 3600 + min * 60 + sec - offset) =
      some ⟨c.year + 70, c.month, c.day + 1, hour, min, sec⟩ := by
    have hs : (d : Int) * 86400 + hour * 3600 + min * 60 + sec - offset + offset =
        d * 86400 + hour * 3600 + min * 60 + sec := by omega
    have hdays : (((d : Int) * 86400 + hour * 3600 + min * 60 + sec) / 86400).toNat = d := by omega
    unfold gregorianLocaltime
    simp only
    rw [hs, if_pos (by omega), hdays, hdate]
    simp only [Option.some.injEq, Tm.mk.injEq, true_and]
    omega
  refine ⟨hmsec, _, _, hloc, ?_⟩
  have hlen : c.month < 12 := hc.month
  have hlast := Calendar.monthDays_le _ _ (List.getElem_mem hc.month)
  have hyear := hc.year
  have hday := hc.day
  unfold civil Time.ofTm u32
  simp only [Time.mk.injEq, and_true]
  omega

variable {z : Zone} {t t' : Time} {a : Amounts}

namespace Time

theorem tm_ofTm {tm : Tm} (h : tm.InRange) (msec : Nat) : (ofTm tm msec).tm = tm := by
  obtain ⟨hyear, hmon, hmday, hhour, hmin, hsec⟩ := h
  have hy : u32 ((u32 (tm.year + 1900) : Int) - 1900) = u32 tm.year := by unfold u32; omega
  have hm : u32 ((u32 (tm.mon + 1) : Int) - 1) = u32 tm.mon := by unfold u32; omega
  unfold Time.tm ofTm
  simp only
  rw [hy, hm, asInt32_u32 (by unfold Int32; omega), asInt32_u32 (by unfold Int32; omega),
    asInt32_u32 (by unfold Int32; omega), asInt32_u32 (by unfold Int32; omega),
    asInt32_u32 (by unfold Int32; omega), asInt32_u32 (by unfold Int32; omega)]

theorem Normal.date (h : t.Normal z) : z.localtime_s (z.mktime t.tm) = some t.tm ∧ t = ofTm t.tm t.msec := by
  obtain ⟨_, tt, tm, htt, ht⟩ := h
  have htm : t.tm = tm := by
    rw [ht]
    exact tm_ofTm (z.inRange htt) _
  rw [htm, z.inverse htt]
  exact ⟨htt, ht⟩

theorem plus_eq (ks : List Int) (hks : ∀ k ∈ ks, 1 ≤ k) {n : Int} (hn : Int32 n) (tt : Int) :
    plus tt n ks = if Int32 (n * ks.prod) then some (tt + n * ks.prod) else none := by
  unfold plus
  by_cases h0 : n = 0
  · subst h0
    simp [Int32]
  · rw [if_pos h0, foldlM_imul hks hn]
    split
    next => rfl
    next => rfl

end Time

namespace Amounts

/-- The amounts in seconds fit an `int`. -/
def Fit (a : Amounts) : Prop := Int32 (a.day * 86400) ∧ Int32 (a.hour * 3600) ∧ Int32 (a.min * 60)

/-- The seconds of the amounts. -/
def secs (a : Amounts) : Int := ((a.day * 24 + a.hour) * 60 + a.min) * 60 + a.sec

instance : DecidablePred Fit := fun _ => inferInstanceAs (Decidable (_ ∧ _))

/-- `msec_` after `msec_ += msec` -/
def millis (t : Time) (a : Amounts) : Nat := u32 (t.msec + a.msec)

theorem addTo_eq (ha : a.Ints) (z : Zone) (t : Time) :
    a.addTo z t = if a.Fit then
      some (.ofTm (Time.localtime_tm z (z.mktime t.tm + (a.millis t / 1000 : Nat) + a.secs)) (a.millis t % 1000))
    else none := by
  obtain ⟨hday, hhour, hmin, hsec, _⟩ := ha
  have htt : ∀ tt : Int, ∀ ms : Nat, (if 1000 ≤ ms then tt + (ms / 1000 : Nat) else tt) = tt + (ms / 1000 : Nat) := by
    intro tt ms
    split
    next => rfl
    next => omega
  have hms : ∀ ms : Nat, (if 1000 ≤ ms then ms % 1000 else ms) = ms % 1000 := by
    intro ms
    split
    next => rfl
    next => omega
  have h24 : [60, 60, 24].prod = (86400 : Int) := by decide
  have h60 : [60, 60].prod = (3600 : Int) := by decide
  unfold addTo Time.add
  simp only [htt, hms, Time.plus_eq [60, 60, 24] (by decide) hday,
    Time.plus_eq [60, 60] (by decide) hhour, Time.plus_eq [60] (by decide) hmin,
    Time.plus_eq [] (by decide) hsec, h24, h60, List.prod_singleton, List.prod_nil, Int.mul_one, if_pos hsec]
  by_cases hd : Int32 (a.day * 86400)
  · by_cases hh : Int32 (a.hour * 3600)
    · by_cases hm : Int32 (a.min * 60)
      · have hf : a.Fit := ⟨hd, hh, hm⟩
        have hsecs : ∀ tt : Int, tt + a.day * 86400 + a.hour * 3600 + a.min * 60 + a.sec = tt + a.secs := by
          intro tt
          unfold secs
          omega
        simp only [hd, hh, hm, if_true, if_pos hf, Option.bind_eq_bind, Option.bind_some, hsecs]
        rfl
      · have hf : ¬a.Fit := fun hf => hm hf.2.2
        simp [hd, hh, hm, hf]
    · have hf : ¬a.Fit := fun hf => hh hf.2.1
      simp [hd, hh, hf]
  · have hf : ¬a.Fit := fun hf => hd hf.1
    simp [hd, hf]

theorem total_eq (a : Amounts) : a.total = a.secs * 1000 + a.msec := rfl

theorem secs_neg (a : Amounts) : a.neg.secs = -a.secs := by
  unfold secs neg
  simp only
  omega

theorem millis_of_nonneg (ht : t.msec < 1000) (ha : a.Ints) (h : 0 ≤ t.msec + a.msec) :
    (a.millis t : Int) = t.msec + a.msec := by
  obtain ⟨_, _, _, _, hmsec⟩ := ha
  unfold Int32 at hmsec
  unfold millis u32
  omega

theorem millis_of_neg (ha : a.Ints) (h : t.msec + a.msec < 0) :
    (a.millis t : Int) = t.msec + a.msec + 4294967296 := by
  obtain ⟨_, _, _, _, hmsec⟩ := ha
  unfold Int32 at hmsec
  unfold millis u32
  omega

theorem not_normal_refused (z : Zone) (ms : Nat) : ¬(Time.ofTm ⟨-1, -1, -1, -1, -1, -1⟩ ms).Normal z := by
  rintro ⟨_, tt, tm, htt, h⟩
  have hday : u32 (-1) = u32 tm.mday := congrArg Time.day h
  have hr := (z.inRange htt).mday
  unfold u32 at hday
  omega

/-- The instant that `add` leads to, with or without a wrap of `msec_`. -/
theorem instant_addTo (ha : a.Ints) (h : a.addTo z t = some t') (ht' : t'.Normal z) :
    t'.instant z = z.mktime t.tm * 1000 + a.secs * 1000 + a.millis t := by
  rw [addTo_eq ha] at h
  split at h
  next =>
    cases Option.some.inj h
    cases hl : z.localtime_s (z.mktime t.tm + (a.millis t / 1000 : Nat) + a.secs) with
    | none =>
      rw [Time.localtime_tm, hl] at ht'
      exact absurd ht' (not_normal_refused z _)
    | some tm =>
      have htm : Time.localtime_tm z (z.mktime t.tm + (a.millis t / 1000 : Nat) + a.secs) = tm := by
        rw [Time.localtime_tm, hl]
        rfl
      rw [htm]
      unfold Time.instant
      rw [Time.tm_ofTm (z.inRange hl), z.inverse hl]
      simp only [Time.ofTm]
      omega
  next => cases h

theorem borrow_of_instant (ha : a.Ints) (h : a.addTo z t = some t') (ht' : t'.Normal z)
    (hi : t'.instant z = t.instant z + a.total) : 0 ≤ t.msec + a.msec := by
  by_cases hb : 0 ≤ t.msec + a.msec
  · exact hb
  · have hms := millis_of_neg ha (show t.msec + a.msec < 0 by omega)
    rw [instant_addTo ha h ht', total_eq] at hi
    unfold Time.instant at hi
    omega

/-- Without overflow and borrow `add` is exact. -/
theorem addTo_of_fit (ht : t.Normal z) (ha : a.Ints) (hf : a.Fit) (hb : 0 ≤ t.msec + a.msec) {tm : Tm}
    (htm : z.localtime_s ((t.instant z + a.total) / 1000) = some tm) :
    a.addTo z t = some (.ofTm tm (a.millis t % 1000)) ∧ (Time.ofTm tm (a.millis t % 1000)).Normal z ∧
      (Time.ofTm tm (a.millis t % 1000)).instant z = t.instant z + a.total := by
  have hms := millis_of_nonneg ht.1 ha hb
  have htt : z.mktime t.tm + (a.millis t / 1000 : Nat) + a.secs = (t.instant z + a.total) / 1000 := by
    rw [total_eq]
    unfold Time.instant
    omega
  have hadd : a.addTo z t = some (.ofTm tm (a.millis t % 1000)) := by
    rw [addTo_eq ha, if_pos hf, htt, Time.localtime_tm, htm]
    rfl
  have hnormal : (Time.ofTm tm (a.millis t % 1000)).Normal z := by
    refine ⟨?_, _, tm, htm, rfl⟩
    simp only [Time.ofTm]
    omega
  refine ⟨hadd, hnormal, ?_⟩
  rw [instant_addTo ha hadd hnormal, hms, total_eq]
  unfold Time.instant
  omega

theorem Fit.neg (h : a.Fit) : a.neg.Fit := by
  obtain ⟨hday, hhour, hmin⟩ := h
  unfold Int32 at hday hhour hmin
  unfold Fit Amounts.neg Int32
  simp only
  omega

/-- The negated amounts lead back if the milliseconds were not carried. -/
theorem neg_addTo_iff (ht : t.Normal z) (ha : a.Ints) (hn : a.neg.Ints) (hf : a.Fit) (h : a.addTo z t = some t')
    (ht' : t'.Normal z) (hi : t'.instant z = t.instant z + a.total) :
    a.neg.addTo z t' = some t ↔ t.msec + a.msec < 1000 := by
  have hb := borrow_of_instant ha h ht' hi
  have hms := millis_of_nonneg ht.1 ha hb
  have hmsec : t'.msec = a.millis t % 1000 := by
    rw [addTo_eq ha, if_pos hf] at h
    cases Option.some.inj h
    rfl
  have hback : t.instant z = t'.instant z + a.neg.total := by
    rw [hi, total_eq, total_eq, secs_neg]
    unfold neg
    simp only
    omega
  have hneg : a.neg.msec = -a.msec := rfl
  constructor
  · intro hr
    have hb' := borrow_of_instant hn hr ht hback
    have hlt := ht.1
    omega
  · intro hc
    have hb' : 0 ≤ t'.msec + a.neg.msec := by omega
    obtain ⟨hdate, ht0⟩ := ht.date
    have hsec : (t'.instant z + a.neg.total) / 1000 = z.mktime t.tm := by
      have hlt := ht.1
      rw [← hback]
      unfold Time.instant
      omega
    obtain ⟨hadd, _, _⟩ := addTo_of_fit ht' hn hf.neg hb' (hsec ▸ hdate)
    have hlast : a.neg.millis t' % 1000 = t.msec := by
      have hlt := ht.1
      have hm := millis_of_nonneg ht'.1 hn hb'
      omega
    rw [hadd, hlast, ← ht0]

theorem neg_ints_iff (ha : a.Ints) (hf : a.Fit) (hb : 0 ≤ t.msec + a.msec) (ht : t.msec < 1000) :
    a.neg.Ints ↔ a.sec ≠ -2147483648 := by
  obtain ⟨hday, hhour, hmin⟩ := hf
  unfold Ints at *
  unfold Int32 at *
  unfold neg
  simp only
  omega

theorem exact_of_within (ht : t.Normal z) (ha : a.Ints) (hr : a.Representable z t) (hw : a.Within t) : a.Exact z t := by
  obtain ⟨hday, hhour, hmin, hb, hc⟩ := hw
  have hf : a.Fit := ⟨hday, hhour, hmin⟩
  obtain ⟨tm, htm⟩ := Option.isSome_iff_exists.mp hr
  obtain ⟨hadd, hnormal, hi⟩ := addTo_of_fit ht ha hf hb htm
  refine ⟨_, hadd, hi, hnormal, ?_⟩
  intro hn
  rcases hc with hc | hsec
  · exact (neg_addTo_iff ht ha hn hf hadd hnormal hi).mpr hc
  · exact absurd hsec ((neg_ints_iff ha hf hb ht.1).mp hn)

theorem exact_iff_within (ht : t.Normal z) (ha : a.Ints) (hr : a.Representable z t) :
    a.Exact z t ↔ a.Within t := by
  constructor
  · rintro ⟨t', h, hi, ht', hneg⟩
    have hf : a.Fit := by
      rw [addTo_eq ha] at h
      split at h
      next hf => exact hf
      next => cases h
    have hb := borrow_of_instant ha h ht' hi
    refine ⟨hf.1, hf.2.1, hf.2.2, hb, ?_⟩
    by_cases hsec : a.sec = -2147483648
    · exact Or.inr hsec
    · have hn := (neg_ints_iff ha hf hb ht.1).mpr hsec
      exact Or.inl ((neg_addTo_iff ht ha hn hf h ht' hi).mp (hneg hn))
  · intro hw
    exact exact_of_within ht ha hr hw

theorem january_valid (year : Nat) (h : year < 1031) : Calendar.Date.Valid 1970 1031 ⟨year, 0, 1⟩ :=
  ⟨h, Nat.zero_lt_succ 11, show 1 < 31 by omega⟩

/-- From 2000-01-02 00:00:00.000, a day and an hour on and a minute back. -/
theorem exact_iff_within_january :
    Exact (gregorian 0) (civil ⟨30, 0, 1⟩ 0 0 0 0) ⟨1, 1, -1, 0, 0⟩ ↔ Within (civil ⟨30, 0, 1⟩ 0 0 0 0) ⟨1, 1, -1, 0, 0⟩ :=
  exact_iff_within (normal_civil (january_valid 30 (by decide)) (by decide) (by decide) (by decide) (by decide) 0)
    (by decide) (by decide +kernel)

/-- A millisecond back from 2000-01-02 00:00:00.000 -/
theorem not_exact_borrow :
    Time.Normal (gregorian 0) (civil ⟨30, 0, 1⟩ 0 0 0 0) ∧ Ints ⟨0, 0, 0, 0, -1⟩ ∧
      Representable (gregorian 0) (civil ⟨30, 0, 1⟩ 0 0 0 0) ⟨0, 0, 0, 0, -1⟩ ∧
      ¬Exact (gregorian 0) (civil ⟨30, 0, 1⟩ 0 0 0 0) ⟨0, 0, 0, 0, -1⟩ := by
  refine ⟨normal_civil (january_valid 30 (by decide)) (by decide) (by decide) (by decide) (by decide) 0,
    by decide, by decide +kernel, ?_⟩
  rintro ⟨t', h, hi, ht', _⟩
  have hb := borrow_of_instant (by decide) h ht' hi
  exact absurd hb (by decide)

end Amounts

/-- `add_day` is the step that `DailyLog` counts days with. -/
theorem Time.add_day_eq (ht : t.Normal z) {n : Int} (hn : -24855 ≤ n ∧ n ≤ 24855)
    (hr : Amounts.Representable z t ⟨n, 0, 0, 0, 0⟩) :
    ∃ t', t.add_day z n = some t' ∧ t'.Normal z ∧ t'.instant z = Ven.Time.addDay (t.instant z) n ∧
      t'.add_day z (-n) = some t := by
  have hlt := ht.1
  have ha : Amounts.Ints ⟨n, 0, 0, 0, 0⟩ := by
    unfold Amounts.Ints Int32
    simp only
    omega
  have hw : Amounts.Within t ⟨n, 0, 0, 0, 0⟩ := by
    refine ⟨?_, show Int32 (0 * 3600) by decide, show Int32 (0 * 60) by decide, ?_, Or.inl ?_⟩
    · unfold Int32
      simp only
      omega
    · simp only
      omega
    · simp only
      omega
  obtain ⟨t', h, hi, ht', hneg⟩ := Amounts.exact_of_within ht ha hr hw
  refine ⟨t', h, ht', ?_, hneg ?_⟩
  · rw [hi]
    unfold Amounts.total Ven.Time.addDay Ven.Time.day
    simp only
    omega
  · unfold Amounts.Ints Amounts.neg Int32
    simp only
    omega

end Ven.Windows
