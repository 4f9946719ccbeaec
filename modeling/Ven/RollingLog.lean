import Ven.LogFile
import Ven.Machine
import Ven.Word
import Mathlib.Data.List.Range
import Mathlib.Data.Int.Order.Basic

namespace Ven

/-- A `uint32_t` as `%d` takes it. -/
def asInt32 (n : Nat) : Int := if n < 2147483648 then n else n - 4294967296

/-- `%0*d`: the sign, then zeros up to the width, then the digits. -/
def padded (width : Nat) (z : Int) : String :=
  let sign := if z < 0 then "-" else ""
  let digits := z.natAbs.repr
  sign ++ String.ofList (List.replicate (width - (sign.length + digits.length)) '0') ++ digits

theorem padded_digits (width : Nat) (z : Int) :
    ∃ l : List Char, (∀ c ∈ l, c.isDigit) ∧ Nat.ofDigitChars 10 l 0 = z.natAbs ∧
      (padded width z).toList = (if z < 0 then ['-'] else []) ++ l := by
  refine ⟨List.replicate (width - ((if z < 0 then "-" else "").length + z.natAbs.repr.length)) '0' ++
    Nat.toDigits 10 z.natAbs, ?_, ?_, ?_⟩
  · intro c hc
    rcases List.mem_append.mp hc with hz | hd
    · rw [List.eq_of_mem_replicate hz]
      rfl
    · exact Nat.isDigit_of_mem_toDigits (by decide) (by decide) hd
  · rw [Nat.ofDigitChars_append, Nat.ofDigitChars_replicate_zero, Nat.mul_zero, Nat.ofDigitChars_ten_toDigits]
  · unfold padded
    by_cases hz : z < 0
    · simp [hz]
    · simp [hz]

theorem padded_injective (width : Nat) : Function.Injective (padded width) := by
  intro y z h
  obtain ⟨l, hl, hy, hly⟩ := padded_digits width y
  obtain ⟨k, hk, hz, hlz⟩ := padded_digits width z
  rw [h, hlz] at hly
  have minus : ('-').isDigit = false := rfl
  by_cases hyn : y < 0
  · by_cases hzn : z < 0
    · simp only [hyn, hzn, if_true] at hly
      have he : k = l := List.append_cancel_left hly
      have habs : y.natAbs = z.natAbs := by rw [← hy, ← hz, he]
      omega
    · simp only [hyn, hzn, if_true, if_false, List.nil_append] at hly
      have hd := hk '-' (by rw [hly]; exact List.mem_cons_self)
      exact absurd hd (by rw [minus]; exact Bool.false_ne_true)
  · by_cases hzn : z < 0
    · simp only [hyn, hzn, if_true, if_false, List.nil_append] at hly
      have hd := hl '-' (by rw [← hly]; exact List.mem_cons_self)
      exact absurd hd (by rw [minus]; exact Bool.false_ne_true)
    · simp only [hyn, hzn, if_false, List.nil_append] at hly
      have habs : y.natAbs = z.natAbs := by rw [← hy, ← hz, hly]
      omega

/-- A `RollingLog` with the `LogFile` of its logger. -/
structure RollingLog where
  size : Nat
  cnt : Nat
  curCnt : Nat
  log : LogFile String

namespace RollingLog

def init (size cnt : Nat) : RollingLog := ⟨size, cnt, 0, LogFile.start⟩

/-- `%s_%02d.log` -/
def name (binaryPath : String) (n : Nat) : String := binaryPath ++ "_" ++ padded 2 (asInt32 n) ++ ".log"

def path (binaryPath : String) (s : RollingLog) : String × RollingLog :=
  let curCnt := add32 s.curCnt 1
  let curCnt := if s.cnt < curCnt then 1 else curCnt
  (name binaryPath curCnt, { s with curCnt := curCnt })

/-- `file.open(path())` -/
def openNext (binaryPath : String) (s : RollingLog) : RollingLog :=
  let (p, s) := path binaryPath s
  { s with log := s.log.open p }

/-- The first half of `write`. -/
def ready (binaryPath : String) (s : RollingLog) : RollingLog :=
  if s.log.valid then s else openNext binaryPath s

/-- A record of `len` bytes. -/
def write (binaryPath : String) (s : RollingLog) (len : Nat) : RollingLog :=
  let s := ready binaryPath s
  let s := if s.size ≤ s.log.size then openNext binaryPath s else s
  { s with log := s.log.write len }

def step (binaryPath : String) (s : RollingLog) (len : Nat) : Option RollingLog := some (write binaryPath s len)

/-- There are at most `cnt_` files, each shorter than `size_ + 1024` bytes. -/
def Bounded (s : RollingLog) : Prop :=
  s.log.files.length ≤ s.cnt ∧ (∀ f ∈ s.log.files, f.2 < s.size + 1024) ∧ s.log.files.total ≤ s.cnt * (s.size + 1024)

/-- What the record rolls over to has room for it: the counter does not wrap around at 2^32, and the file that
is opened is new, or short enough. -/
def Rolls (binaryPath : String) (s : RollingLog) (len : Nat) : Prop :=
  (ready binaryPath s).size ≤ (ready binaryPath s).log.size →
    (ready binaryPath s).curCnt ≠ 4294967295 ∧
      (ready binaryPath s).log.files.size (path binaryPath (ready binaryPath s)).1 + len < s.size + 1024

instance (binaryPath : String) (s : RollingLog) (len : Nat) : Decidable (Rolls binaryPath s len) :=
  inferInstanceAs (Decidable (_ → _))

variable {binaryPath : String} {s : RollingLog} {k len : Nat}

theorem asInt32_inj {m n : Nat} (hm : m < 4294967296) (hn : n < 4294967296) (h : asInt32 m = asInt32 n) : m = n := by
  unfold asInt32 at h
  split at h
  next => split at h <;> omega
  next => split at h <;> omega

theorem name_inj {m n : Nat} (hm : m < 4294967296) (hn : n < 4294967296) (h : name binaryPath m = name binaryPath n) :
    m = n := by
  have hlist := congrArg String.toList h
  simp only [name, String.toList_append, List.append_assoc] at hlist
  have hpad := List.append_cancel_right (List.append_cancel_left (List.append_cancel_left hlist))
  exact asInt32_inj hm hn (padded_injective 2 (String.toList_injective hpad))

/-- The files with the numbers 1 to `k`. -/
def names (binaryPath : String) (k : Nat) : List String := (List.range' 1 k).map (name binaryPath)

theorem mem_names {n : Nat} (hn : n < 4294967296) (hk : k < 4294967296) :
    name binaryPath n ∈ names binaryPath k ↔ 1 ≤ n ∧ n ≤ k := by
  unfold names
  rw [List.mem_map]
  constructor
  · rintro ⟨m, hm, he⟩
    have hrange := List.mem_range'_1.mp hm
    cases name_inj (by omega) hn he
    omega
  · intro h
    exact ⟨n, List.mem_range'_1.mpr (by omega), rfl⟩

theorem names_succ (binaryPath : String) (k : Nat) :
    names binaryPath k ++ [name binaryPath (k + 1)] = names binaryPath (k + 1) := by
  unfold names
  rw [List.range'_1_concat, List.map_append, Nat.add_comm 1 k]
  rfl

/-- The files are those numbered 1 to `k`, and the one with the number of the counter is open. -/
structure Kept (binaryPath : String) (s : RollingLog) (k : Nat) : Prop where
  pos : 1 ≤ s.cnt
  bits : s.cnt < 4294967296
  cur : s.curCnt ≤ k
  most : k ≤ s.cnt
  paths : s.log.files.paths = names binaryPath k
  file : s.log.file = if s.curCnt = 0 then none else some (name binaryPath s.curCnt)
  fresh : s.log.Fresh
  bound : ∀ f ∈ s.log.files, f.2 < s.size + 1024

theorem kept_init {size cnt : Nat} (hpos : 1 ≤ cnt) (hbits : cnt < 4294967296) :
    Kept binaryPath (init size cnt) 0 where
  pos := hpos
  bits := hbits
  cur := Nat.le_refl 0
  most := Nat.zero_le cnt
  paths := rfl
  file := rfl
  fresh := fun _ h => by cases h
  bound := fun _ h => by cases h

theorem Kept.bounded (h : Kept binaryPath s k) : Bounded s := by
  have hlen : s.log.files.paths.length = k := by rw [h.paths, names, List.length_map, List.length_range']
  have hcount : s.log.files.length = k := by
    rw [← hlen]
    exact (List.length_map _).symm
  refine ⟨by rw [hcount]; exact h.most, h.bound, (Files.total_le h.bound).trans ?_⟩
  rw [hlen]
  exact Nat.mul_le_mul_right _ h.most

theorem path_eq (h : Kept binaryPath s k) (hne : s.curCnt ≠ 4294967295) :
    path binaryPath s = (name binaryPath (if s.cnt < s.curCnt + 1 then 1 else s.curCnt + 1),
      { s with curCnt := if s.cnt < s.curCnt + 1 then 1 else s.curCnt + 1 }) := by
  have hlt : s.curCnt + 1 < 4294967296 := by
    have := h.cur
    have := h.most
    have := h.bits
    omega
  unfold path
  rw [add32_of_lt hlt]

/-- The next file is one of those there are, or the one after them. -/
theorem Kept.openNext (h : Kept binaryPath s k) (hne : s.curCnt ≠ 4294967295) :
    ∃ k', Kept binaryPath (openNext binaryPath s) k' ∧ (RollingLog.openNext binaryPath s).log.valid = true := by
  have hcur := h.cur
  have hmost := h.most
  have hbits := h.bits
  have hpos := h.pos
  generalize hn : (if s.cnt < s.curCnt + 1 then 1 else s.curCnt + 1) = n
  have hn1 : 1 ≤ n ∧ n ≤ k + 1 ∧ n ≤ s.cnt := by
    subst hn
    split
    next => omega
    next => omega
  have hopen : RollingLog.openNext binaryPath s = { s with curCnt := n, log := s.log.open (name binaryPath n) } := by
    unfold RollingLog.openNext
    rw [path_eq h hne, hn]
  have hbound : ∀ f ∈ s.log.files.append (name binaryPath n) 0, f.2 < s.size + 1024 :=
    Files.append_bounded h.bound (Files.size_lt h.bound (by omega))
  have hfile : (some (name binaryPath n) : Option String) = if n = 0 then none else some (name binaryPath n) := by
    rw [if_neg (by omega)]
  rw [hopen]
  by_cases hnew : n ≤ k
  · refine ⟨k, ⟨hpos, hbits, hnew, hmost, ?_, hfile, LogFile.fresh_open _ _, hbound⟩, rfl⟩
    refine (Files.paths_append_of_mem ?_).trans h.paths
    rw [h.paths]
    exact (mem_names (by omega) (by omega)).mpr ⟨hn1.1, hnew⟩
  · obtain rfl : n = k + 1 := by omega
    refine ⟨k + 1, ⟨hpos, hbits, Nat.le_refl _, hn1.2.2, ?_, hfile, LogFile.fresh_open _ _, hbound⟩, rfl⟩
    rw [← names_succ, ← h.paths]
    refine Files.paths_append_of_notMem ?_
    rw [h.paths]
    intro hmem
    have := (mem_names (by omega) (by omega)).mp hmem
    omega

theorem Kept.ready (h : Kept binaryPath s k) :
    ∃ k', Kept binaryPath (ready binaryPath s) k' ∧ (RollingLog.ready binaryPath s).log.valid = true ∧
      (RollingLog.ready binaryPath s).size = s.size := by
  unfold RollingLog.ready
  split
  next hv => exact ⟨k, h, hv, rfl⟩
  next hv =>
    have hzero : s.curCnt = 0 := by
      by_contra hne
      have hfile := h.file
      rw [if_neg hne] at hfile
      exact hv (by simp [LogFile.valid, hfile])
    obtain ⟨k', hk, hvalid⟩ := h.openNext (by omega)
    exact ⟨k', hk, hvalid, rfl⟩

/-- A record goes to the end of the file that is open. -/
theorem Kept.append (h : Kept binaryPath s k) (hv : s.log.valid = true) (len : Nat) :
    ∃ p, s.log.file = some p ∧ p ∈ s.log.files.paths ∧ s.log.size = s.log.files.size p ∧
      s.log.write len = ⟨some p, s.log.size + len, s.log.files.append p len⟩ := by
  obtain ⟨p, hp⟩ := Option.isSome_iff_exists.mp hv
  have hfile := h.file
  rw [hp] at hfile
  split at hfile
  next => cases hfile
  next hne =>
    cases Option.some.inj hfile
    refine ⟨_, hp, ?_, h.fresh _ hp, by simp only [LogFile.write, hp]⟩
    rw [h.paths]
    have hcur := h.cur
    have hmost := h.most
    have hbits := h.bits
    exact (mem_names (by omega) (by omega)).mpr ⟨by omega, hcur⟩

theorem Kept.write_fits (h : Kept binaryPath s k) (hv : s.log.valid = true) (hfit : s.log.size + len < s.size + 1024) :
    Kept binaryPath { s with log := s.log.write len } k := by
  obtain ⟨p, hp, hmem, hsize, hwrite⟩ := h.append hv len
  have hfresh := h.fresh.write len
  rw [hwrite] at hfresh ⊢
  refine ⟨h.pos, h.bits, h.cur, h.most, (Files.paths_append_of_mem hmem).trans h.paths, ?_, hfresh, ?_⟩
  · exact hp.symm.trans h.file
  · refine Files.append_bounded h.bound ?_
    rw [← hsize]
    exact hfit

theorem openNext_size (binaryPath : String) (s : RollingLog) :
    (openNext binaryPath s).log.size = s.log.files.size (path binaryPath s).1 :=
  Files.size_append_self

theorem Kept.write (h : Kept binaryPath s k) (hlen : len ≤ 1024) (hroll : Rolls binaryPath s len) :
    ∃ k', Kept binaryPath (write binaryPath s len) k' := by
  obtain ⟨k₁, h₁, hv, hsize⟩ := h.ready
  unfold RollingLog.write
  simp only
  split
  next hfull =>
    obtain ⟨hne, hfit⟩ := hroll hfull
    obtain ⟨k₂, h₂, hv₂⟩ := h₁.openNext hne
    refine ⟨k₂, h₂.write_fits hv₂ ?_⟩
    rw [openNext_size]
    exact hsize.symm ▸ hfit
  next hroom => exact ⟨k₁, h₁.write_fits hv (by omega)⟩

/-- After the counter has wrapped around at 2^32 there is a file too many. -/
theorem Kept.wraps (h : Kept binaryPath s k) (hcur : s.curCnt = 4294967295) (len : Nat) :
    ¬Bounded { RollingLog.openNext binaryPath s with log := (RollingLog.openNext binaryPath s).log.write len } := by
  have hle := h.cur
  have hmost := h.most
  have hbits := h.bits
  have hopen : RollingLog.openNext binaryPath s = { s with curCnt := 0, log := s.log.open (name binaryPath 0) } := by
    have hadd : add32 s.curCnt 1 = 0 := by
      rw [hcur]
      rfl
    unfold RollingLog.openNext path
    simp only [hadd, Nat.not_lt_zero, if_false]
  have hnew : name binaryPath 0 ∉ s.log.files.paths := by
    rw [h.paths]
    intro hmem
    have := (mem_names (by omega) (by omega)).mp hmem
    omega
  rintro ⟨hcount, _⟩
  rw [hopen] at hcount
  have hpaths := Files.paths_append_of_notMem (n := 0) hnew
  have hmem : name binaryPath 0 ∈ (s.log.files.append (name binaryPath 0) 0).paths := by
    rw [hpaths]
    exact List.mem_append.mpr (Or.inr List.mem_cons_self)
  have hwritten := Files.paths_append_of_mem (n := len) hmem
  have hlength := congrArg List.length hwritten
  rw [hpaths, h.paths, names, List.length_append, List.length_map, List.length_range', List.length_singleton] at hlength
  have hcount' : ((s.log.files.append (name binaryPath 0) 0).append (name binaryPath 0) len).paths.length ≤ s.cnt := by
    rw [Files.paths, List.length_map]
    exact hcount
  omega

/-- A file that has no room for the record is too long after it. -/
theorem overfull {p : String} (hfile : s.log.file = some p) (hsize : s.log.size = s.log.files.size p)
    (hlong : s.size + 1024 ≤ s.log.size + len) : ¬Bounded { s with log := s.log.write len } := by
  rintro ⟨_, hbound, _⟩
  have hmem : (p, s.log.files.size p + len) ∈ (s.log.write len).files := by
    simp only [LogFile.write, hfile]
    exact Files.mem_append_self
  have hlt : s.log.files.size p + len < s.size + 1024 := hbound _ hmem
  omega

theorem Kept.write_fails (h : Kept binaryPath s k) (hroll : ¬Rolls binaryPath s len) :
    ¬Bounded (RollingLog.write binaryPath s len) := by
  obtain ⟨k₁, h₁, hv, hsize⟩ := h.ready
  obtain ⟨hfull, hbad⟩ := Classical.not_imp.mp hroll
  unfold RollingLog.write
  simp only [hfull, if_true]
  by_cases hne : (RollingLog.ready binaryPath s).curCnt = 4294967295
  · exact h₁.wraps hne len
  · obtain ⟨k₂, h₂, hv₂⟩ := h₁.openNext hne
    obtain ⟨p, hp, _, hfresh, _⟩ := h₂.append hv₂ len
    refine overfull hp hfresh ?_
    have hlong := fun hfit => hbad ⟨hne, hfit⟩
    rw [openNext_size]
    change (RollingLog.ready binaryPath s).size + 1024 ≤ _
    omega

/-- The bound on files and bytes holds at every moment of exactly the runs in which every record that rolls the
log over finds room in the file it opens. -/
theorem rolling_log_bounded_iff (binaryPath : String) (size : Nat) {cnt : Nat} (hpos : 1 ≤ cnt)
    (hbits : cnt < 4294967296) {lens : List Nat} (hlens : ∀ len ∈ lens, len ≤ 1024) {s : RollingLog}
    (run : Machine.exec (step binaryPath) (init size cnt) lens = some s) :
    Machine.Throughout (step binaryPath) Bounded (init size cnt) lens ↔
      Machine.Along (step binaryPath) (Rolls binaryPath) (init size cnt) lens := by
  refine Machine.throughout_iff_along_under (I := fun s => ∃ k, Kept binaryPath s k) (W := fun _ len => len ≤ 1024)
    (fun s ⟨_, h⟩ => h.bounded) ?_ ?_ ⟨0, kept_init hpos hbits⟩ (Machine.along_of_forall (fun len hl _ => hlens len hl) _) run
  · rintro s len s' ⟨k, h⟩ hlen hroll hs
    cases Option.some.inj hs
    exact h.write hlen hroll
  · rintro s len s' ⟨k, h⟩ _ hroll hs
    cases Option.some.inj hs
    exact h.write_fails hroll

/-- One round through both files. -/
theorem rolling_log_bounded_sample : Machine.Throughout (step "app") Bounded (init 10 2) [9, 5, 12] :=
  (rolling_log_bounded_iff "app" 10 (by decide) (by decide) (by decide) rfl).mpr (by decide)

/-- The file that is full is opened again and grows. -/
theorem rolling_log_grows : ¬Machine.Throughout (step "app") Bounded (init 1000 1) [1000, 1024] := by
  intro h
  have hend := h [1000, 1024] _ (List.prefix_refl _) rfl
  have hlt : 2024 < 1000 + 1024 := hend.2.1 ("app_01.log", 2024) (by decide)
  omega

end RollingLog

end Ven
