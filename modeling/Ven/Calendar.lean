import Mathlib.Algebra.GroupWithZero.Nat
import Mathlib.Data.List.Basic

namespace Ven.Calendar

/-- The segment that `d` falls into, and its place there, when segments of these lengths lie one behind the other. -/
def place : List Nat → Nat → Nat × Nat
  | [], d => (0, d)
  | l :: ls, d => if d < l then (0, d) else ((place ls (d - l)).1 + 1, (place ls (d - l)).2)

/-- Where segment `k` starts. -/
def origin (ls : List Nat) (k : Nat) : Nat := (ls.take k).sum

theorem origin_succ (l : Nat) (ls : List Nat) (k : Nat) : origin (l :: ls) (k + 1) = l + origin ls k := by
  simp [origin]

theorem origin_place (ls : List Nat) (d : Nat) : origin ls (place ls d).1 + (place ls d).2 = d := by
  induction ls generalizing d with
  | nil => simp [origin, place]
  | cons l ls ih =>
    unfold place
    split
    next => simp [origin]
    next hd =>
      have ht := ih (d - l)
      rw [origin_succ]
      omega

theorem place_lt {ls : List Nat} {d : Nat} (h : d < ls.sum) :
    ∃ hk : (place ls d).1 < ls.length, (place ls d).2 < ls[(place ls d).1] := by
  induction ls generalizing d with
  | nil => simp at h
  | cons l ls ih =>
    by_cases hd : d < l
    · simp [place, hd]
    · rw [List.sum_cons] at h
      obtain ⟨hk, hr⟩ := ih (show d - l < ls.sum by omega)
      simpa [place, hd] using ⟨hk, hr⟩

theorem place_origin {ls : List Nat} {k r : Nat} (hk : k < ls.length) (hr : r < ls[k]) :
    place ls (origin ls k + r) = (k, r) := by
  induction ls generalizing k with
  | nil => simp at hk
  | cons l ls ih =>
    cases k with
    | zero =>
      have hl : r < l := by simpa using hr
      simp [origin, place, hl]
    | succ k =>
      have ht := ih (by simpa using hk) (by simpa using hr)
      have hd : l + origin ls k + r - l = origin ls k + r := by omega
      rw [origin_succ, place, if_neg (by omega), hd, ht]

theorem origin_add_lt {ls : List Nat} {k r : Nat} (hk : k < ls.length) (hr : r < ls[k]) : origin ls k + r < ls.sum := by
  have hsplit : (ls.take k ++ ls.drop k).sum = ls.sum := by rw [List.take_append_drop]
  rw [List.drop_eq_getElem_cons hk, List.sum_append, List.sum_cons] at hsplit
  unfold origin
  omega

def leap (y : Nat) : Bool := y % 4 = 0 && (y % 100 ≠ 0 || y % 400 = 0)

def yearDays (y : Nat) : Nat := if leap y then 366 else 365

def monthDays (y : Nat) : List Nat := [31, if leap y then 29 else 28, 31, 30, 31, 30, 31, 31, 30, 31, 30, 31]

theorem monthDays_sum (y : Nat) : (monthDays y).sum = yearDays y := by
  unfold monthDays yearDays
  cases leap y with
  | false => rfl
  | true => rfl

theorem monthDays_le (y : Nat) : ∀ l ∈ monthDays y, l ≤ 31 := by
  unfold monthDays
  cases leap y with
  | false => decide
  | true => decide

/-- The year counted from `first`, the month counted from 0 and the day of the month counted from 0. -/
structure Date where
  year : Nat
  month : Nat
  day : Nat
deriving DecidableEq

/-- The date that is `d` days after the first day of `first`, in a calendar of `n` years. -/
def dateOf (first n d : Nat) : Date :=
  let y := place ((List.range' first n).map yearDays) d
  let m := place (monthDays (first + y.1)) y.2
  ⟨y.1, m.1, m.2⟩

def daysOf (first n : Nat) (c : Date) : Nat :=
  origin ((List.range' first n).map yearDays) c.year + origin (monthDays (first + c.year)) c.month + c.day

/-- The days of the calendar. -/
def span (first n : Nat) : Nat := ((List.range' first n).map yearDays).sum

variable {first n d : Nat} {c : Date}

theorem daysOf_dateOf (first n d : Nat) : daysOf first n (dateOf first n d) = d := by
  unfold daysOf dateOf
  have hy := origin_place ((List.range' first n).map yearDays) d
  have hm := origin_place (monthDays (first + (place ((List.range' first n).map yearDays) d).1))
    (place ((List.range' first n).map yearDays) d).2
  simp only
  omega

theorem dateOf_year_lt (h : d < span first n) : (dateOf first n d).year < n := by
  obtain ⟨hk, _⟩ := place_lt h
  rw [List.length_map, List.length_range'] at hk
  exact hk

theorem dateOf_month_lt (h : d < span first n) :
    ∃ hm : (dateOf first n d).month < (monthDays (first + (dateOf first n d).year)).length,
      (dateOf first n d).day < (monthDays (first + (dateOf first n d).year))[(dateOf first n d).month] := by
  obtain ⟨hk, hr⟩ := place_lt h
  apply place_lt
  rw [monthDays_sum]
  simpa using hr

theorem dateOf_bounds (h : d < span first n) :
    (dateOf first n d).year < n ∧ (dateOf first n d).month < 12 ∧ (dateOf first n d).day < 31 := by
  obtain ⟨hm, hd⟩ := dateOf_month_lt h
  have hl := monthDays_le _ _ (List.getElem_mem hm)
  exact ⟨dateOf_year_lt h, hm, by omega⟩

/-- The month and the day exist in the year. -/
structure Date.Valid (first n : Nat) (c : Date) : Prop where
  year : c.year < n
  month : c.month < (monthDays (first + c.year)).length
  day : c.day < (monthDays (first + c.year))[c.month]

theorem Date.Valid.place_year (h : c.Valid first n) :
    ∃ hy : c.year < ((List.range' first n).map yearDays).length,
      origin (monthDays (first + c.year)) c.month + c.day < ((List.range' first n).map yearDays)[c.year] := by
  have hsum := origin_add_lt h.month h.day
  rw [monthDays_sum] at hsum
  exact ⟨by simpa using h.year, by simpa using hsum⟩

theorem daysOf_lt (h : c.Valid first n) : daysOf first n c < span first n := by
  obtain ⟨hy, hd⟩ := h.place_year
  unfold daysOf
  rw [Nat.add_assoc]
  exact origin_add_lt hy hd

theorem dateOf_daysOf (h : c.Valid first n) : dateOf first n (daysOf first n c) = c := by
  obtain ⟨hy, hd⟩ := h.place_year
  have hyear := place_origin hy hd
  have hmonth := place_origin h.month h.day
  unfold dateOf daysOf
  rw [Nat.add_assoc, hyear]
  simp only
  rw [hmonth]

end Ven.Calendar
