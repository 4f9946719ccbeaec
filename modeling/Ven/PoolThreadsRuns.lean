import Ven.PoolThreads
import Ven.Machine

namespace Ven

namespace PoolThreads

open MemPC

variable {ι : Type} [DecidableEq ι] {stepCnt : Nat}

/-- What one step of a thread in a call does, with its place before, what becomes of the unit and its place behind. -/
inductive Turn (stepCnt : Nat) (s : PoolThreads ι) (t : ι) : MemPC → PoolThreads ι → MemPC → Prop
  | dry {pc pc' : MemPC} (enter : s.enters t = true) (free : s.free = [])
      (goes : pc = .popping ∧ pc' = .locking ∨ pc = .again ∧ pc' = .counting ∨ pc = .last ∧ pc' = .boxing none) :
      Turn stepCnt s t pc s pc'
  | pop {pc pc' : MemPC} (m : Nat) (free : List Nat) (enter : s.enters t = true) (has : s.free = m :: free)
      (goes : pc = .popping ∧ pc' = .wrapping m ∨ (pc = .again ∨ pc = .last) ∧ pc' = .boxing (some m)) :
      Turn stepCnt s t pc { s with free := free } pc'
  | lock (enter : s.enters t = true) : Turn stepCnt s t .locking { s with owner := some t } .again
  | count : Turn stepCnt s t .counting { s with total := s.total + stepCnt } (.making [])
  | make (made : List Nat) (short : made.length < stepCnt) :
      Turn stepCnt s t (.making made) { s with laid := s.laid + 1, ref := Function.update s.ref s.laid 0 }
        (.making (s.laid :: made))
  | push (made : List Nat) (enough : stepCnt ≤ made.length) (enter : s.enters t = true) :
      Turn stepCnt s t (.making made) { s with free := made ++ s.free } .last
  | add {pc pc' : MemPC} (m : Nat)
      (goes : pc = .wrapping m ∧ pc' = .idle ∨ pc = .boxing (some m) ∧ pc' = .leaving) :
      Turn stepCnt s t pc (s.addRef m) pc'
  | null : Turn stepCnt s t (.boxing none) s .leaving
  | unlock : Turn stepCnt s t .leaving { s with owner := none } .idle
  | release (m : Nat) :
      Turn stepCnt s t (.releasing m) { s with ref := Function.update s.ref m (pred32 (s.ref m)) }
        (if pred32 (s.ref m) = 0 then .returning m else .idle)
  | ret (m : Nat) (enter : s.enters t = true) : Turn stepCnt s t (.returning m) { s with free := m :: s.free } .idle

variable {s s' : PoolThreads ι} {t : ι}

theorem Turn.popped {pc : MemPC} {pcs : Option Nat → MemPC} (enter : s.enters t = true)
    (none_ : pc = .popping ∧ pcs none = .locking ∨ pc = .again ∧ pcs none = .counting ∨
      pc = .last ∧ pcs none = .boxing none)
    (some_ : ∀ m, pc = .popping ∧ pcs (some m) = .wrapping m ∨ (pc = .again ∨ pc = .last) ∧ pcs (some m) = .boxing (some m)) :
    ∃ w pc', Turn stepCnt s t pc w pc' ∧ s.pop t pcs = w.goto t pc' := by
  unfold PoolThreads.pop
  split
  next hfree => exact ⟨s, pcs none, .dry enter hfree none_, rfl⟩
  next m free hfree => exact ⟨_, pcs (some m), .pop m free enter hfree (some_ m), rfl⟩

theorem turn_of_stepThread (h : s.stepThread stepCnt t = some s') :
    ∃ w pc, Turn stepCnt s t (s.thread t) w pc ∧ s' = w.goto t pc := by
  unfold stepThread at h
  split at h
  next => cases h
  next hpc =>
    obtain ⟨enter, h⟩ := Option.ite_none_right_eq_some.mp h
    cases h
    rw [hpc]
    exact Turn.popped enter (Or.inl ⟨rfl, rfl⟩) fun m => Or.inl ⟨rfl, rfl⟩
  next m hpc =>
    cases h
    rw [hpc]
    exact ⟨_, _, .add m (Or.inl ⟨rfl, rfl⟩), rfl⟩
  next hpc =>
    obtain ⟨enter, h⟩ := Option.ite_none_right_eq_some.mp h
    cases h
    rw [hpc]
    exact ⟨_, _, .lock enter, rfl⟩
  next hpc =>
    obtain ⟨enter, h⟩ := Option.ite_none_right_eq_some.mp h
    cases h
    rw [hpc]
    exact Turn.popped enter (Or.inr (Or.inl ⟨rfl, rfl⟩)) fun m => Or.inr ⟨Or.inl rfl, rfl⟩
  next hpc =>
    cases h
    rw [hpc]
    exact ⟨_, _, .count, rfl⟩
  next made hpc =>
    rw [hpc]
    split at h
    next short =>
      cases h
      exact ⟨_, _, .make made short, rfl⟩
    next short =>
      obtain ⟨enter, h⟩ := Option.ite_none_right_eq_some.mp h
      cases h
      exact ⟨_, _, .push made (Nat.le_of_not_lt short) enter, rfl⟩
  next hpc =>
    obtain ⟨enter, h⟩ := Option.ite_none_right_eq_some.mp h
    cases h
    rw [hpc]
    exact Turn.popped enter (Or.inr (Or.inr ⟨rfl, rfl⟩)) fun m => Or.inr ⟨Or.inr rfl, rfl⟩
  next hpc =>
    cases h
    rw [hpc]
    exact ⟨_, _, .null, rfl⟩
  next m hpc =>
    cases h
    rw [hpc]
    exact ⟨_, _, .add m (Or.inr ⟨rfl, rfl⟩), rfl⟩
  next hpc =>
    cases h
    rw [hpc]
    exact ⟨_, _, .unlock, rfl⟩
  next m hpc =>
    cases h
    rw [hpc]
    refine ⟨_, _, .release m, ?_⟩
    simp only [Function.update_self]
    split
    next => rfl
    next => rfl
  next m hpc =>
    obtain ⟨enter, h⟩ := Option.ite_none_right_eq_some.mp h
    cases h
    rw [hpc]
    exact ⟨_, _, .ret m enter, rfl⟩

/-- Every step brings the call of its thread nearer to its end. -/
theorem Turn.left_lt {pc pc' : MemPC} {w : PoolThreads ι} (h : Turn stepCnt s t pc w pc') :
    left stepCnt pc' < left stepCnt pc := by
  cases h with
  | dry _ _ goes => rcases goes with ⟨rfl, rfl⟩ | ⟨rfl, rfl⟩ | ⟨rfl, rfl⟩ <;> simp [left]
  | pop m free _ _ goes => rcases goes with ⟨rfl, rfl⟩ | ⟨rfl | rfl, rfl⟩ <;> simp [left]
  | lock => simp [left]
  | count => simp [left]
  | make made short =>
    simp only [left, List.length_cons]
    omega
  | push => simp [left]
  | add m goes => rcases goes with ⟨rfl, rfl⟩ | ⟨rfl, rfl⟩ <;> simp [left]
  | null => simp [left]
  | unlock => simp [left]
  | release m => split <;> simp [left]
  | ret => simp [left]

theorem Turn.thread {pc pc' : MemPC} {w : PoolThreads ι} (h : Turn stepCnt s t pc w pc') : w.thread = s.thread := by
  cases h <;> rfl

/-- What a thread inside the lock knows of the list: `inc_mem` finds it empty and leaves blocks in it. -/
def knows (stepCnt : Nat) (free : List Nat) : MemPC → Prop
  | .counting => free = []
  | .making made => free = [] ∧ made.length ≤ stepCnt
  | .last => 1 ≤ stepCnt → free ≠ []
  | .boxing none => stepCnt = 0
  | _ => True

/-- What the place of one thread says about the list and its lock. -/
structure Local (stepCnt : Nat) (s : PoolThreads ι) (t : ι) (pc : MemPC) : Prop where
  lock : pc.locks = true ↔ s.owner = some t
  knows : knows stepCnt s.free pc

theorem knows_outside {pc : MemPC} {free : List Nat} (hpc : pc.locks = false) : knows stepCnt free pc := by
  cases pc with
  | counting => cases hpc
  | making => cases hpc
  | last => cases hpc
  | boxing => cases hpc
  | _ => trivial

omit [DecidableEq ι] in
theorem Local.outside {pc : MemPC} (hpc : pc.locks = false) (howner : s.owner ≠ some t) : Local stepCnt s t pc where
  lock := by simp [hpc, howner]
  knows := knows_outside hpc

omit [DecidableEq ι] in
theorem Local.not_owner {pc : MemPC} (h : Local stepCnt s t pc) (hpc : pc.locks = false) : s.owner ≠ some t := by
  intro ho
  rw [h.lock.mpr ho] at hpc
  cases hpc

/-- While one thread may enter the lock, no other is inside. -/
theorem Local.other {u : ι} {pc : MemPC} (h : Local stepCnt s u pc) (enter : s.enters t = true) (hu : u ≠ t) :
    pc.locks = false ∧ s.owner ≠ some u := by
  have howner : s.owner ≠ some u := by
    intro ho
    rcases of_decide_eq_true enter with hn | hs
    · cases ho.symm.trans hn
    · exact hu (Option.some.inj (ho.symm.trans hs))
  exact ⟨Bool.eq_false_iff.mpr fun hl => howner (h.lock.mp hl), howner⟩

/-- A thread inside the lock may enter it again. -/
theorem Local.enters {pc : MemPC} (h : Local stepCnt s t pc) (hpc : pc.locks = true) : s.enters t = true :=
  decide_eq_true (Or.inr (h.lock.mp hpc))

/-- Nothing that the place of another thread speaks of has changed, or nobody else is in the lock. -/
theorem Turn.others {pc pc' : MemPC} {w : PoolThreads ι} (h : Turn stepCnt s t pc w pc')
    (own : Local stepCnt s t pc) {u : ι} {q : MemPC} (hu : u ≠ t) (other : Local stepCnt s u q) :
    Local stepCnt w u q := by
  have out (w : PoolThreads ι) (enter : s.enters t = true) (howner : w.owner = s.owner ∨ w.owner = some t ∨ w.owner = none) :
      Local stepCnt w u q := by
    obtain ⟨hq, ho⟩ := other.other enter hu
    refine Local.outside hq ?_
    rcases howner with hw | hw | hw
    · rw [hw]
      exact ho
    · rw [hw]
      exact fun hs => hu (Option.some.inj hs).symm
    · rw [hw]
      exact fun hs => by cases hs
  cases h with
  | dry => exact other
  | pop m free enter => exact out _ enter (Or.inl rfl)
  | lock enter => exact out _ enter (Or.inr (Or.inl rfl))
  | count => exact ⟨other.lock, other.knows⟩
  | make => exact ⟨other.lock, other.knows⟩
  | push made _ enter => exact out _ enter (Or.inl rfl)
  | add => exact ⟨other.lock, other.knows⟩
  | null => exact other
  | unlock => exact out _ (own.enters rfl) (Or.inr (Or.inr rfl))
  | release => exact ⟨other.lock, other.knows⟩
  | ret m enter => exact out _ enter (Or.inl rfl)

/-- Where the thread itself goes. -/
theorem Turn.own {pc pc' : MemPC} {w : PoolThreads ι} (h : Turn stepCnt s t pc w pc') (own : Local stepCnt s t pc) :
    Local stepCnt w t pc' := by
  cases h with
  | dry enter hfree goes =>
    rcases goes with ⟨rfl, rfl⟩ | ⟨rfl, rfl⟩ | ⟨rfl, rfl⟩
    · exact Local.outside rfl (own.not_owner rfl)
    · exact ⟨own.lock, hfree⟩
    · exact ⟨own.lock, Nat.eq_zero_of_not_pos fun hs => own.knows hs hfree⟩
  | pop m free enter has goes =>
    rcases goes with ⟨rfl, rfl⟩ | ⟨rfl | rfl, rfl⟩
    · exact Local.outside rfl (own.not_owner rfl)
    · exact ⟨own.lock, trivial⟩
    · exact ⟨own.lock, trivial⟩
  | lock => exact ⟨⟨fun _ => rfl, fun _ => rfl⟩, trivial⟩
  | count => exact ⟨own.lock, own.knows, Nat.zero_le _⟩
  | make made short => exact ⟨own.lock, own.knows.1, short⟩
  | push made enough =>
    refine ⟨own.lock, fun hs hnil => ?_⟩
    have hlen := congrArg List.length hnil
    rw [List.length_append, List.length_nil] at hlen
    omega
  | add m goes =>
    rcases goes with ⟨rfl, rfl⟩ | ⟨rfl, rfl⟩
    · exact Local.outside rfl (own.not_owner rfl)
    · exact ⟨own.lock, trivial⟩
  | null => exact ⟨own.lock, trivial⟩
  | unlock => exact Local.outside rfl (fun h => by cases h)
  | release m =>
    split
    · exact Local.outside rfl (own.not_owner rfl)
    · exact Local.outside rfl (own.not_owner rfl)
  | ret => exact Local.outside rfl (own.not_owner rfl)

variable [Fintype ι]

/-- Every block made is in one place: in the list, in the hands of a thread, or with the `Buf`s that are counted. -/
structure Inv (stepCnt : Nat) (s : PoolThreads ι) : Prop where
  parts : ∀ k, s.free.count k + Threads.total (hand k) s.thread + min 1 (s.ref k) = if k < s.laid then 1 else 0
  refs : ∀ k, s.ref k = s.bufs.count k + Threads.total (MemPC.refs k) s.thread
  places : ∀ t, Local stepCnt s t (s.thread t)
  count : s.total = s.laid + Threads.total (owed stepCnt) s.thread

/-- What a step takes from one place for a block it puts in another. -/
structure Balanced (stepCnt : Nat) (s : PoolThreads ι) (pc : MemPC) (w : PoolThreads ι) (pc' : MemPC) : Prop where
  parts : ∀ k, w.free.count k + hand k pc' + min 1 (w.ref k) + (if k < s.laid then 1 else 0)
    = s.free.count k + hand k pc + min 1 (s.ref k) + if k < w.laid then 1 else 0
  refs : ∀ k, w.ref k + s.bufs.count k + MemPC.refs k pc = s.ref k + w.bufs.count k + MemPC.refs k pc'
  count : w.total + s.laid + owed stepCnt pc = s.total + w.laid + owed stepCnt pc'

theorem Inv.move (h : Inv stepCnt s) {w : PoolThreads ι} {pc : MemPC} (thread : w.thread = s.thread)
    (balanced : Balanced stepCnt s (s.thread t) w pc) (own : Local stepCnt w t pc)
    (others : ∀ u, u ≠ t → Local stepCnt w u (s.thread u)) : Inv stepCnt (w.goto t pc) where
  parts k := by
    have hmoved := Threads.total_update (hand k) s.thread t pc
    have hbal := balanced.parts k
    have hold := h.parts k
    simp only [goto, thread]
    omega
  refs k := by
    have hmoved := Threads.total_update (MemPC.refs k) s.thread t pc
    have hbal := balanced.refs k
    have hold := h.refs k
    simp only [goto, thread]
    omega
  places u := by
    have hu : Local stepCnt w u ((w.goto t pc).thread u) := by
      simp only [goto, thread]
      by_cases hu : u = t
      · rw [hu, Function.update_self]
        exact own
      · rw [Function.update_of_ne hu]
        exact others u hu
    exact ⟨hu.lock, hu.knows⟩
  count := by
    have hmoved := Threads.total_update (owed stepCnt) s.thread t pc
    have hbal := balanced.count
    have hold := h.count
    simp only [goto, thread]
    omega

omit [DecidableEq ι] in
/-- A block that a thread has in its hands is not counted by any `Buf`. -/
theorem Inv.ref_hand (h : Inv stepCnt s) {k : Nat} (hand : 1 ≤ hand k (s.thread t)) : s.ref k = 0 := by
  have hparts := h.parts k
  have hle := Threads.le_total (MemPC.hand k) s.thread t
  split at hparts <;> omega

omit [DecidableEq ι] in
theorem Inv.ref_laid (h : Inv stepCnt s) : s.ref s.laid = 0 := by
  have hparts := h.parts s.laid
  rw [if_neg (Nat.lt_irrefl _)] at hparts
  omega

omit [DecidableEq ι] in
/-- `Buf(Mem*)` of a block that no `Buf` has yet. -/
theorem Inv.balanced_add (h : Inv stepCnt s) {pc pc' : MemPC} {m : Nat} (hpc : s.thread t = pc)
    (holds : ∀ k, hand k pc = if m = k then 1 else 0) (rests : ∀ k, hand k pc' = 0)
    (refs : ∀ k, MemPC.refs k pc = 0 ∧ MemPC.refs k pc' = 0) (owed : owed stepCnt pc = 0 ∧ owed stepCnt pc' = 0) :
    Balanced stepCnt s pc (s.addRef m) pc' where
  parts k := by
    rw [holds k, rests k]
    change s.free.count k + 0 + min 1 (Function.update s.ref m (s.ref m + 1) k) + _ = _
    by_cases hk : m = k
    · subst hk
      have hfresh := h.ref_hand (t := t) (k := m) (by rw [hpc, holds m, if_pos rfl])
      rw [Function.update_self, hfresh, if_pos rfl]
      rfl
    · rw [Function.update_of_ne (Ne.symm hk), if_neg hk]
      rfl
  refs k := by
    rw [(refs k).1, (refs k).2]
    by_cases hk : m = k
    · subst hk
      simp only [addRef, Function.update_self, List.count_cons_self]
      omega
    · simp only [addRef, Function.update_of_ne (Ne.symm hk), List.count_cons_of_ne hk]
  count := by
    rw [owed.1, owed.2]
    rfl

omit [DecidableEq ι] in
/-- `new_mem` of `inc_mem`. -/
theorem Inv.balanced_make (h : Inv stepCnt s) {made : List Nat} (short : made.length < stepCnt) :
    Balanced stepCnt s (.making made) { s with laid := s.laid + 1, ref := Function.update s.ref s.laid 0 }
      (.making (s.laid :: made)) where
  parts k := by
    have hfresh := h.ref_laid
    by_cases hk : k = s.laid
    · subst hk
      simp only [hand, Function.update_self, List.count_cons_self, hfresh]
      split <;> split <;> omega
    · simp only [hand, Function.update_of_ne hk, List.count_cons_of_ne (Ne.symm hk)]
      split <;> split <;> omega
  refs k := by
    by_cases hk : k = s.laid
    · subst hk
      simp only [MemPC.refs, Function.update_self, h.ref_laid]
    · simp only [MemPC.refs, Function.update_of_ne hk]
  count := by
    simp only [owed, List.length_cons]
    omega

omit [DecidableEq ι] in
/-- `rel_ref` of a block, which the `Buf` that lets go of it still counts for. -/
theorem Inv.balanced_release (h : Inv stepCnt s) {m : Nat} (hpc : s.thread t = .releasing m) :
    Balanced stepCnt s (.releasing m) { s with ref := Function.update s.ref m (pred32 (s.ref m)) }
      (if pred32 (s.ref m) = 0 then .returning m else .idle) := by
  have hpos : 1 ≤ s.ref m := by
    have hle := Threads.le_total (MemPC.refs m) s.thread t
    have href := h.refs m
    rw [hpc, MemPC.refs, if_pos rfl] at hle
    omega
  rw [pred32_of_pos hpos]
  refine ⟨fun k => ?_, fun k => ?_, ?_⟩
  · by_cases hk : m = k
    · subst hk
      simp only [Function.update_self]
      split
      next hlast =>
        simp only [hand, if_pos]
        omega
      next hlast =>
        simp only [hand]
        omega
    · have hnone : hand k (if s.ref m - 1 = 0 then .returning m else .idle) = 0 := by
        split
        · exact if_neg hk
        · rfl
      rw [hnone]
      simp only [hand, Function.update_of_ne (Ne.symm hk)]
  · have hnone : MemPC.refs k (if s.ref m - 1 = 0 then .returning m else .idle) = 0 := by split <;> rfl
    rw [hnone]
    by_cases hk : m = k
    · subst hk
      simp only [Function.update_self, MemPC.refs, if_pos]
      omega
    · simp only [MemPC.refs, if_neg hk, Function.update_of_ne (Ne.symm hk)]
  · have hnone : owed stepCnt (if s.ref m - 1 = 0 then .returning m else .idle) = 0 := by split <;> rfl
    rw [hnone]
    rfl

theorem Turn.balanced {pc pc' : MemPC} {w : PoolThreads ι} (h : Turn stepCnt s t pc w pc') (hpc : s.thread t = pc)
    (inv : Inv stepCnt s) : Balanced stepCnt s pc w pc' := by
  cases h with
  | dry enter hfree goes =>
    rcases goes with ⟨rfl, rfl⟩ | ⟨rfl, rfl⟩ | ⟨rfl, rfl⟩
    · exact ⟨fun _ => rfl, fun _ => rfl, rfl⟩
    · exact ⟨fun _ => rfl, fun _ => rfl, rfl⟩
    · exact ⟨fun _ => rfl, fun _ => rfl, rfl⟩
  | pop m free enter has goes =>
    have hcount (k : Nat) : s.free.count k = free.count k + if m = k then 1 else 0 := by
      rw [has, List.count_cons]
      simp only [beq_iff_eq]
    rcases goes with ⟨rfl, rfl⟩ | ⟨rfl | rfl, rfl⟩
    · exact ⟨fun k => by simp only [hcount k, hand]; omega, fun _ => rfl, rfl⟩
    · exact ⟨fun k => by simp only [hcount k, hand]; omega, fun _ => rfl, rfl⟩
    · exact ⟨fun k => by simp only [hcount k, hand]; omega, fun _ => rfl, rfl⟩
  | lock => exact ⟨fun _ => rfl, fun _ => rfl, rfl⟩
  | count => exact ⟨fun _ => rfl, fun _ => rfl, by simp only [owed, List.length_nil]; omega⟩
  | make made short => exact inv.balanced_make short
  | push made enough =>
    refine ⟨fun k => ?_, fun _ => rfl, ?_⟩
    · simp only [hand, List.count_append]
      omega
    · simp only [owed]
      omega
  | add m goes =>
    rcases goes with ⟨rfl, rfl⟩ | ⟨rfl, rfl⟩
    · exact inv.balanced_add hpc (fun _ => rfl) (fun _ => rfl) (fun _ => ⟨rfl, rfl⟩) ⟨rfl, rfl⟩
    · exact inv.balanced_add hpc (fun _ => rfl) (fun _ => rfl) (fun _ => ⟨rfl, rfl⟩) ⟨rfl, rfl⟩
  | null => exact ⟨fun _ => rfl, fun _ => rfl, rfl⟩
  | unlock => exact ⟨fun _ => rfl, fun _ => rfl, rfl⟩
  | release m => exact inv.balanced_release hpc
  | ret m =>
    refine ⟨fun k => ?_, fun _ => rfl, rfl⟩
    simp only [hand, List.count_cons, beq_iff_eq]
    omega

/-- A thread that stands in no call begins one that holds nothing yet. -/
theorem Inv.begins (h : Inv stepCnt s) (hidle : s.thread t = .idle) : Inv stepCnt (s.goto t .popping) := by
  refine h.move rfl ?_ ?_ fun u _ => h.places u
  · rw [hidle]
    exact ⟨fun _ => rfl, fun _ => rfl, rfl⟩
  · have hplace := h.places t
    rw [hidle] at hplace
    exact Local.outside rfl (hplace.not_owner rfl)

omit [DecidableEq ι] in
/-- A `Buf` is copied. -/
theorem Inv.copied (h : Inv stepCnt s) {m : Nat} (hm : m ∈ s.bufs) : Inv stepCnt (s.addRef m) where
  parts k := by
    have hold := h.parts k
    have hrefs := h.refs k
    change s.free.count k + _ + min 1 (Function.update s.ref m (s.ref m + 1) k) = if k < s.laid then 1 else 0
    by_cases hk : k = m
    · subst hk
      have hpos := List.count_pos_iff.mpr hm
      rw [Function.update_self]
      change s.free.count k + Threads.total (hand k) s.thread + _ = _
      omega
    · rw [Function.update_of_ne hk]
      exact hold
  refs k := by
    have hold := h.refs k
    by_cases hk : k = m
    · subst hk
      simp only [addRef, Function.update_self, List.count_cons_self]
      omega
    · simp only [addRef, Function.update_of_ne hk, List.count_cons_of_ne (Ne.symm hk)]
      exact hold
  places u := ⟨(h.places u).lock, (h.places u).knows⟩
  count := h.count

/-- The destructor of a `Buf` begins. -/
theorem Inv.dropped (h : Inv stepCnt s) {m : Nat} (hidle : s.thread t = .idle) (hm : m ∈ s.bufs) :
    Inv stepCnt ({ s with bufs := s.bufs.erase m }.goto t (.releasing m)) := by
  refine h.move rfl ?_ ?_ fun u _ => ⟨(h.places u).lock, (h.places u).knows⟩
  · rw [hidle]
    refine ⟨fun _ => rfl, fun k => ?_, rfl⟩
    by_cases hk : m = k
    · subst hk
      have hpos := List.count_pos_iff.mpr hm
      simp only [MemPC.refs, if_pos, List.count_erase_self]
      omega
    · simp only [MemPC.refs, if_neg hk, List.count_erase_of_ne (Ne.symm hk)]
  · have hplace := h.places t
    rw [hidle] at hplace
    exact Local.outside rfl (hplace.not_owner rfl)

theorem Inv.step (h : Inv stepCnt s) {op : Op ι} (hs : s.step stepCnt op = some s') : Inv stepCnt s' := by
  cases op with
  | get t =>
    obtain ⟨hidle, hs⟩ := Option.ite_none_right_eq_some.mp hs
    cases hs
    exact h.begins hidle
  | copy t m =>
    obtain ⟨⟨_, hm⟩, hs⟩ := Option.ite_none_right_eq_some.mp hs
    cases hs
    exact h.copied hm
  | drop t m =>
    obtain ⟨⟨hidle, hm⟩, hs⟩ := Option.ite_none_right_eq_some.mp hs
    cases hs
    exact h.dropped hidle hm
  | step t =>
    obtain ⟨w, pc, turn, rfl⟩ := turn_of_stepThread hs
    exact h.move turn.thread (turn.balanced rfl h) (turn.own (h.places t)) fun u hu =>
      turn.others (h.places t) hu (h.places u)

omit [DecidableEq ι] in
theorem inv_start (initCnt : Nat) : Inv stepCnt (start (ι := ι) initCnt) where
  parts k := by
    have hnone : Threads.total (hand k) (start (ι := ι) initCnt).thread = 0 := Threads.total_eq_zero fun _ => rfl
    rw [hnone]
    change (List.range initCnt).reverse.count k + 0 + min 1 0 = if k < initCnt then 1 else 0
    rw [List.count_reverse, List.count_range]
    rfl
  refs k := by
    have hnone : Threads.total (MemPC.refs k) (start (ι := ι) initCnt).thread = 0 := Threads.total_eq_zero fun _ => rfl
    rw [hnone]
    rfl
  places _ := Local.outside rfl (fun h => by cases h)
  count := by
    have hnone : Threads.total (owed stepCnt) (start (ι := ι) initCnt).thread = 0 := Threads.total_eq_zero fun _ => rfl
    rw [hnone]
    rfl

theorem inv_of_run {initCnt : Nat} {ops : List (Op ι)} (run : Machine.exec (step stepCnt) (start initCnt) ops = some s) :
    Inv stepCnt s :=
  Machine.exec_invariant (fun _ _ _ h => h.step) (inv_start initCnt) run

end PoolThreads

end Ven
