import Ven.TlsMemPool
import Mathlib.Data.List.Perm.Basic
import Mathlib.Data.Finset.Card
import Mathlib.Data.Finset.Range

namespace Ven

namespace Tm

namespace UnitPool

variable {ι : Type} [DecidableEq ι]

/-- Every block laid out is in one of the lists, which have the nodes of `L`, or in `out`, and in one place only. -/
structure Laid (s : UnitPool ι) (L : Shelf ι → List Nat) (out : List Nat) : Prop where
  piles : SList.Piles s.next s.lists L
  nodup : out.Nodup
  apart : ∀ x ∈ out, ∀ p, x ∉ L p
  all : ∀ x, x < s.laid ↔ x ∈ out ∨ ∃ p, x ∈ L p
  bits : s.laid < 4294967296

/-- The same blocks on other lists. -/
def relink (s : UnitPool ι) (next : Nat → Option Nat) (lists : Shelf ι → SList Nat) : UnitPool ι :=
  { s with next := next, lists := lists }

variable {s s' : UnitPool ι} {L L' : Shelf ι → List Nat} {out : List Nat} {p q : Shelf ι} {t : ι} {n cnt unit : Nat}

theorem nodup_length_le {l : List Nat} {m : Nat} (hnodup : l.Nodup) (hlt : ∀ x ∈ l, x < m) : l.length ≤ m := by
  have hsub : l.toFinset ⊆ Finset.range m := fun x hx => Finset.mem_range.mpr (hlt x (List.mem_toFinset.mp hx))
  have hcard := Finset.card_le_card hsub
  rwa [List.toFinset_card_of_nodup hnodup, Finset.card_range] at hcard

omit [DecidableEq ι] in
theorem Laid.mem_lt (h : Laid s L out) {x : Nat} (hx : x ∈ L p) : x < s.laid := (h.all x).mpr (Or.inr ⟨p, hx⟩)

omit [DecidableEq ι] in
theorem Laid.perm (h : Laid s L out) {out' : List Nat} (hperm : out.Perm out') : Laid s L out' :=
  ⟨h.piles, hperm.nodup_iff.mp h.nodup, fun x hx => h.apart x (hperm.mem_iff.mpr hx),
    fun x => (h.all x).trans (or_congr_left hperm.mem_iff), h.bits⟩

theorem exists_mem_iff (p : Shelf ι) {x : Nat} : (∃ o, x ∈ L o) ↔ x ∈ L p ∨ ∃ o, o ≠ p ∧ x ∈ L o := by
  constructor
  · rintro ⟨o, ho⟩
    by_cases hp : o = p
    · exact Or.inl (hp ▸ ho)
    · exact Or.inr ⟨o, hp, ho⟩
  · rintro (hp | ⟨o, _, ho⟩)
    · exact ⟨p, hp⟩
    · exact ⟨o, ho⟩

theorem exists_mem_update {l : List Nat} {x : Nat} :
    (∃ o, x ∈ Function.update L p l o) ↔ x ∈ l ∨ ∃ o, o ≠ p ∧ x ∈ L o := by
  rw [exists_mem_iff p, Function.update_self]
  refine or_congr_right (exists_congr fun o => and_congr_right fun ho => ?_)
  rw [Function.update_of_ne ho]

theorem exists_mem_iff₂ (p q : Shelf ι) {x : Nat} :
    (∃ o, x ∈ L o) ↔ x ∈ L q ∨ x ∈ L p ∨ ∃ o, o ≠ p ∧ o ≠ q ∧ x ∈ L o := by
  constructor
  · rintro ⟨o, ho⟩
    by_cases hq : o = q
    · exact Or.inl (hq ▸ ho)
    · by_cases hp : o = p
      · exact Or.inr (Or.inl (hp ▸ ho))
      · exact Or.inr (Or.inr ⟨o, hp, hq, ho⟩)
  · rintro (hq | hp | ⟨o, _, _, ho⟩)
    · exact ⟨q, hq⟩
    · exact ⟨p, hp⟩
    · exact ⟨o, ho⟩

theorem exists_mem_update₂ (hpq : p ≠ q) {l k : List Nat} {x : Nat} :
    (∃ o, x ∈ Function.update (Function.update L p l) q k o) ↔ x ∈ k ∨ x ∈ l ∨ ∃ o, o ≠ p ∧ o ≠ q ∧ x ∈ L o := by
  rw [exists_mem_iff₂ p q, Function.update_self, Function.update_of_ne hpq, Function.update_self]
  refine or_congr_right (or_congr_right (exists_congr fun o => and_congr_right fun hp => and_congr_right fun hq => ?_))
  rw [Function.update_of_ne hq, Function.update_of_ne hp]

omit [DecidableEq ι] in
/-- A new block is at first in no list. -/
theorem Laid.grow (h : Laid s L out) (hbits : s.laid + 1 < 4294967296) :
    Laid { s with laid := s.laid + 1 } L (s.laid :: out) := by
  refine ⟨h.piles, List.nodup_cons.mpr ⟨fun hm => ?_, h.nodup⟩, fun x hx p hp => ?_, fun x => ?_, hbits⟩
  · exact Nat.lt_irrefl _ ((h.all _).mpr (Or.inl hm))
  · rcases List.mem_cons.mp hx with rfl | hx
    · exact Nat.lt_irrefl _ (h.mem_lt hp)
    · exact h.apart x hx p hp
  · change x < s.laid + 1 ↔ _
    rw [Nat.lt_succ_iff_lt_or_eq, h.all x, List.mem_cons]
    tauto

theorem Laid.popOne_nil (h : Laid s L out) (hp : L p = []) : s.popOne p = (none, s) := by
  have his := h.piles.is p
  rw [hp] at his
  unfold popOne
  rw [his.pop_nil]
  simp only [Function.update_eq_self]

theorem Laid.popOne_cons (h : Laid s L out) {l : List Nat} (hp : L p = n :: l) :
    ∃ next lists, s.popOne p = (some n, s.relink next lists) ∧
      Laid (s.relink next lists) (Function.update L p l) (n :: out) := by
  have his := h.piles.is p
  have hnodup := h.piles.nodup p
  rw [hp] at his hnodup
  obtain ⟨hn, hl⟩ := List.nodup_cons.mp hnodup
  obtain ⟨list, hpop, hlist⟩ := his.pop_cons hn
  have hmem : n ∈ L p := by rw [hp]; exact List.mem_cons_self
  have hother : ∀ o, o ≠ p → ∀ x ∈ L o, x ∉ L p := fun o ho x hx hxp => ho (h.piles.apart o p x hx hxp)
  have hsub : ∀ x ∈ l, x ∈ L p := fun x hx => by rw [hp]; exact List.mem_cons_of_mem n hx
  refine ⟨Function.update s.next n none, Function.update s.lists p list, ?_, ?_, ?_, ?_, ?_, h.bits⟩
  · unfold popOne
    rw [hpop]
    rfl
  · refine h.piles.set hlist hl (fun x hx o ho hxo => hother o ho x hxo (hsub x hx)) fun o ho x hx => ?_
    exact Function.update_of_ne (fun he : x = n => hother o ho x hx (he ▸ hmem)) _ _
  · exact List.nodup_cons.mpr ⟨fun hout => h.apart n hout p hmem, h.nodup⟩
  · intro x hx o
    by_cases ho : o = p
    · subst ho
      rw [Function.update_self]
      rcases List.mem_cons.mp hx with rfl | hx
      · exact hn
      · exact fun hxl => h.apart x hx o (hsub x hxl)
    · rw [Function.update_of_ne ho]
      rcases List.mem_cons.mp hx with rfl | hx
      · exact fun hxo => hother o ho x hxo hmem
      · exact h.apart x hx o
  · intro x
    refine (h.all x).trans ?_
    rw [exists_mem_update, exists_mem_iff p, hp, List.mem_cons, List.mem_cons]
    tauto

theorem Laid.pushOne (h : Laid s L (n :: out)) (p : Shelf ι) :
    ∃ next lists, s.pushOne p n = s.relink next lists ∧
      Laid (s.relink next lists) (Function.update L p (n :: L p)) out := by
  have hfree : ∀ o, n ∉ L o := h.apart n List.mem_cons_self
  obtain ⟨hn, hout⟩ := List.nodup_cons.mp h.nodup
  have hnodup : (n :: L p).Nodup := List.nodup_cons.mpr ⟨hfree p, h.piles.nodup p⟩
  have hlen : (n :: L p).length ≤ s.laid := nodup_length_le hnodup fun x hx => by
    rcases List.mem_cons.mp hx with rfl | hx
    · exact (h.all x).mpr (Or.inl List.mem_cons_self)
    · exact h.mem_lt hx
  obtain ⟨list, v, hpush, hlist⟩ := (h.piles.is p).push (hfree p) (Nat.lt_of_le_of_lt hlen h.bits)
  refine ⟨Function.update s.next n v, Function.update s.lists p list, ?_, ?_, hout, ?_, ?_, h.bits⟩
  · unfold UnitPool.pushOne
    rw [hpush]
    rfl
  · refine h.piles.set hlist hnodup (fun x hx o ho hxo => ?_) fun o _ x hx => ?_
    · rcases List.mem_cons.mp hx with rfl | hx
      · exact hfree o hxo
      · exact ho (h.piles.apart o p x hxo hx)
    · exact Function.update_of_ne (fun he : x = n => hfree o (he ▸ hx)) _ _
  · intro x hx o
    by_cases ho : o = p
    · subst ho
      rw [Function.update_self, List.mem_cons, not_or]
      exact ⟨fun he => hn (he ▸ hx), h.apart x (List.mem_cons_of_mem n hx) o⟩
    · rw [Function.update_of_ne ho]
      exact h.apart x (List.mem_cons_of_mem n hx) o
  · intro x
    refine (h.all x).trans ?_
    rw [exists_mem_update, exists_mem_iff p, List.mem_cons, List.mem_cons]
    tauto

/-- Two lists exchange nodes. -/
theorem Laid.exchange (h : Laid s L out) (hpq : p ≠ q) {next : Nat → Option Nat} {list list' : SList Nat}
    {l k : List Nat} (his : SList.Is next list l) (his' : SList.Is next list' k)
    (hperm : (k ++ l).Perm (L q ++ L p)) (frame : ∀ x, x ∉ L p → x ∉ L q → next x = s.next x) :
    Laid (s.relink next (Function.update (Function.update s.lists p list) q list'))
      (Function.update (Function.update L p l) q k) out := by
  have hnodup := h.piles.both_nodup hpq
  have hmem : ∀ x, x ∈ k ∨ x ∈ l ↔ x ∈ L q ∨ x ∈ L p := fun x => by
    rw [← List.mem_append, ← List.mem_append]
    exact hperm.mem_iff
  refine ⟨h.piles.set₂ hpq his his' (hperm.nodup_iff.mpr hnodup) (fun x hx => ?_) frame, h.nodup, fun x hx o ho => ?_,
    fun x => ?_, h.bits⟩
  · exact ((hmem x).mp (List.mem_append.mp hx)).symm
  · by_cases hq : o = q
    · subst hq
      rw [Function.update_self] at ho
      rcases (hmem x).mp (Or.inl ho) with hold | hold
      · exact h.apart x hx o hold
      · exact h.apart x hx p hold
    · rw [Function.update_of_ne hq] at ho
      by_cases hp : o = p
      · subst hp
        rw [Function.update_self] at ho
        rcases (hmem x).mp (Or.inr ho) with hold | hold
        · exact h.apart x hx q hold
        · exact h.apart x hx o hold
      · rw [Function.update_of_ne hp] at ho
        exact h.apart x hx o ho
  · refine (h.all x).trans ?_
    rw [exists_mem_update₂ hpq, exists_mem_iff₂ p q]
    have := hmem x
    tauto

/-- `popSome` moves the first nodes to an empty list. -/
theorem Laid.popSome (h : Laid s L out) (hpq : p ≠ q) (hq : L q = []) (cnt : Nat) :
    ∃ next lists, s.popSome p cnt q = s.relink next lists ∧
      Laid (s.relink next lists) (Function.update (Function.update L p ((L p).drop cnt)) q ((L p).take cnt)) out := by
  have hempty := h.piles.is q
  rw [hq] at hempty
  obtain ⟨list, moved, next, hpop, hdrop, htake, hframe⟩ := (h.piles.is p).popSome (h.piles.nodup p) cnt
  refine ⟨next, _, ?_, h.exchange hpq hdrop htake ?_ fun x hx _ => hframe x hx⟩
  · unfold UnitPool.popSome
    rw [hempty.eq_empty, hpop]
    rfl
  · rw [List.take_append_drop, hq, List.nil_append]

/-- `pushAll` moves all nodes of the other list to the front. -/
theorem Laid.pushAll (h : Laid s L out) (hpq : p ≠ q) :
    ∃ next lists, s.pushAll p q = s.relink next lists ∧
      Laid (s.relink next lists) (Function.update (Function.update L p (L q ++ L p)) q []) out := by
  have hnodup := h.piles.both_nodup hpq
  have hlen : (L q ++ L p).length ≤ s.laid := nodup_length_le hnodup fun x hx => by
    rcases List.mem_append.mp hx with hx | hx
    · exact h.mem_lt hx
    · exact h.mem_lt hx
  have hbits := h.bits
  rw [List.length_append] at hlen
  obtain ⟨list, next, hpush, hlist, hframe⟩ := (h.piles.is p).pushAll (h.piles.is q) (h.piles.nodup q)
    (fun x hx hxp => hpq (h.piles.apart p q x hxp hx)) (by omega)
  refine ⟨next, _, ?_, h.exchange hpq hlist (SList.is_empty next) ?_ fun x _ hx => hframe x hx⟩
  · unfold UnitPool.pushAll
    rw [hpush]
    rfl
  · rw [List.nil_append]

theorem Laid.clear (h : Laid s L out) (hp : L p = []) : s.clear p = s := by
  have his := h.piles.is p
  rw [hp] at his
  unfold UnitPool.clear
  rw [← his.eq_empty, Function.update_eq_self]

/-- The new blocks are on the list, and nothing else has changed. -/
theorem Laid.setMemList (h : Laid s L out) (cnt : Nat) (hbits : s.laid + cnt < 4294967296) :
    ∃ next lists k, setMemList cnt s = { s.relink next lists with laid := s.laid + cnt } ∧
      Laid { s.relink next lists with laid := s.laid + cnt } (Function.update L .ml k) out ∧
      k.length = (L .ml).length + cnt := by
  induction cnt generalizing s L with
  | zero =>
    refine ⟨s.next, s.lists, L .ml, rfl, ?_, rfl⟩
    rw [Function.update_eq_self]
    exact h
  | succ cnt ih =>
    obtain ⟨next, lists, hpush, hlaid⟩ := (h.grow (by omega)).pushOne .ml
    have hroom : ({ s with laid := s.laid + 1 }.relink next lists).laid + cnt < 4294967296 := by
      change s.laid + 1 + cnt < _
      omega
    obtain ⟨next', lists', k, heq, hk, hlen⟩ := ih hlaid hroom
    have hsum : s.laid + 1 + cnt = s.laid + (cnt + 1) := by omega
    rw [Function.update_self, List.length_cons] at hlen
    rw [Function.update_idem] at hk
    refine ⟨next', lists', k, ?_, ?_, by omega⟩
    · change UnitPool.setMemList cnt (UnitPool.pushOne { s with laid := s.laid + 1 } .ml s.laid) = _
      rw [hpush, heq, ← hsum]
      rfl
    · rw [← hsum]
      exact hk

/-- What a call on the thread `t` leaves alone, with the local lists empty at its end. -/
structure Moved (t : ι) (L L' : Shelf ι → List Nat) : Prop where
  wait : ∀ u, u ≠ t → L' (.wait u) = L (.wait u)
  free : ∀ u, u ≠ t → L' (.free u) = L (.free u)
  short : (L' (.free t)).length ≤ (L (.free t)).length
  ml : L' .ml = []
  heapMl : L' .heapMl = []

/-- The thread's `wait_` gets new blocks from the local list. -/
theorem Moved.deal (hwait : ∀ u, L' (.wait u) = L (.wait u)) (hfree : ∀ u, L' (.free u) = L (.free u))
    (hheap : L' .heapMl = []) (t : ι) (l : List Nat) :
    Moved t L (Function.update (Function.update L' (.wait t) l) .ml []) := by
  refine ⟨fun u hu => ?_, fun u _ => ?_, ?_, ?_, ?_⟩
  · simp [hu, hwait]
  · simp [hfree]
  · simp [hfree]
  · simp
  · simpa using hheap

theorem Laid.popFromThread (h : Laid s L out) (hml : L .ml = []) (hheap : L .heapMl = []) (t : ι) :
    (∃ n next lists L', s.popFromThread t = (some n, s.relink next lists) ∧
      Laid (s.relink next lists) L' (n :: out) ∧ Moved t L L' ∧ ¬(L (.wait t) = [] ∧ L (.free t) = [])) ∨
    (s.popFromThread t = (none, s) ∧ L (.wait t) = [] ∧ L (.free t) = []) := by
  unfold UnitPool.popFromThread
  cases hw : L (.wait t) with
  | cons n l =>
    obtain ⟨next, lists, hpop, hlaid⟩ := h.popOne_cons hw
    rw [hpop]
    refine Or.inl ⟨n, next, lists, _, rfl, hlaid, ⟨fun u hu => ?_, fun u _ => ?_, ?_, ?_, ?_⟩, fun hnil => ?_⟩
    · exact Function.update_of_ne (fun he => hu (Shelf.wait.inj he)) _ _
    · exact Function.update_of_ne (fun he => by cases he) _ _
    · rw [Function.update_of_ne (fun he => by cases he)]
    · rw [Function.update_of_ne (fun he => by cases he), hml]
    · rw [Function.update_of_ne (fun he => by cases he), hheap]
    · cases hnil.1
  | nil =>
    rw [h.popOne_nil hw]
    cases hf : L (.free t) with
    | nil => exact Or.inr ⟨h.popOne_nil hf, rfl, rfl⟩
    | cons n l =>
      obtain ⟨next, lists, hpop, hlaid⟩ := h.popOne_cons hf
      refine Or.inl ⟨n, next, lists, _, hpop, hlaid, ⟨fun u _ => ?_, fun u hu => ?_, ?_, ?_, ?_⟩, fun hnil => ?_⟩
      · exact Function.update_of_ne (fun he => by cases he) _ _
      · exact Function.update_of_ne (fun he => hu (Shelf.free.inj he)) _ _
      · rw [Function.update_self, hf]
        exact Nat.le_succ _
      · rw [Function.update_of_ne (fun he => by cases he), hml]
      · rw [Function.update_of_ne (fun he => by cases he), hheap]
      · cases hnil.2

/-- The end of `pop_from_main` and `pop_from_new`: the first block of `ml` is for the caller, the others for `wait_`. -/
theorem Laid.deal (h : Laid s L out) {l : List Nat} (hml : L .ml = n :: l) (t : ι) :
    ∃ next lists next' lists', s.popOne .ml = (some n, s.relink next lists) ∧
      (s.relink next lists).pushAll (.wait t) .ml = s.relink next' lists' ∧
      Laid (s.relink next' lists')
        (Function.update (Function.update L (.wait t) (l ++ L (.wait t))) .ml []) (n :: out) := by
  obtain ⟨next, lists, hpop, hlaid⟩ := h.popOne_cons hml
  have hne : (Shelf.wait t) ≠ .ml := fun he => by cases he
  obtain ⟨next', lists', hpush, hlaid'⟩ := hlaid.pushAll hne
  refine ⟨next, lists, next', lists', hpop, hpush, ?_⟩
  rw [Function.update_self, Function.update_of_ne hne] at hlaid'
  have hsame : Function.update (Function.update (Function.update L .ml l) (.wait t) (l ++ L (.wait t))) .ml [] =
      Function.update (Function.update L (.wait t) (l ++ L (.wait t))) .ml [] := by
    rw [Function.update_comm hne.symm, Function.update_idem]
  rw [hsame] at hlaid'
  exact hlaid'

theorem Laid.popFromMain (h : Laid s L out) (hml : L .ml = []) (hheap : L .heapMl = []) (t : ι) :
    (∃ n next lists L', s.popFromMain t = (some n, s.relink next lists) ∧
      Laid (s.relink next lists) L' (n :: out) ∧ Moved t L L' ∧ s.conf.popCnt ≠ 0) ∨
    (∃ next lists, s.popFromMain t = (none, s.relink next lists) ∧ Laid (s.relink next lists) L out ∧
      (s.conf.popCnt = 0 ∨ L .heap = [])) := by
  have hne : (Shelf.heap : Shelf ι) ≠ .ml := fun he => by cases he
  obtain ⟨next, lists, hsome, hlaid⟩ := h.popSome hne hml s.conf.popCnt
  have hcnt := (hlaid.piles.is .ml).cnt
  rw [Function.update_self] at hcnt
  unfold UnitPool.popFromMain
  simp only [h.clear hml, hsome]
  cases htake : (L .heap).take s.conf.popCnt with
  | nil =>
    rw [htake] at hcnt
    rw [if_neg (by rw [hcnt]; exact Nat.lt_irrefl 0)]
    have hnone := List.take_eq_nil_iff.mp htake
    refine Or.inr ⟨next, lists, rfl, ?_, hnone⟩
    have hdrop : (L .heap).drop s.conf.popCnt = L .heap := by
      rcases hnone with hz | hz
      · rw [hz, List.drop_zero]
      · rw [hz, List.drop_nil]
    rw [hdrop, htake, ← hml, Function.update_eq_self, Function.update_eq_self] at hlaid
    exact hlaid
  | cons n l =>
    rw [htake] at hcnt hlaid
    rw [if_pos (by rw [hcnt]; exact Nat.succ_pos _)]
    obtain ⟨next₁, lists₁, next₂, lists₂, hpop, hpush, hdealt⟩ := hlaid.deal (Function.update_self _ _ _) t
    rw [hpop]
    refine Or.inl ⟨n, next₂, lists₂, _, congrArg (Prod.mk (some n)) hpush, hdealt, Moved.deal ?_ ?_ ?_ t _, fun hz => ?_⟩
    · exact fun u => by simp
    · exact fun u => by simp
    · simpa using hheap
    · rw [hz, List.take_zero] at htake
      cases htake

/-- Of a new chunk `ml` keeps what `pop_cnt_` allows. -/
theorem Laid.share (h : Laid s L out) (hheap : L .heapMl = []) :
    ∃ next lists L', s.share = s.relink next lists ∧ Laid (s.relink next lists) L' out ∧ L' .heapMl = [] ∧
      (∀ u, L' (.wait u) = L (.wait u)) ∧ (∀ u, L' (.free u) = L (.free u)) ∧
      (L' .ml).length = min (L .ml).length s.conf.popCnt := by
  have hcnt := (h.piles.is .ml).cnt
  unfold UnitPool.share
  simp only
  split
  next hmore =>
    have hne : (Shelf.ml : Shelf ι) ≠ .heapMl := fun he => by cases he
    have hne' : (Shelf.heap : Shelf ι) ≠ .heapMl := fun he => by cases he
    obtain ⟨next, lists, hsome, hlaid⟩ := h.popSome hne hheap ((s.lists .ml).cnt - s.conf.popCnt)
    obtain ⟨next', lists', hpush, hlaid'⟩ := hlaid.pushAll hne'
    simp only [h.clear hheap, hsome]
    refine ⟨next', lists', _, hpush, hlaid', by simp, fun u => by simp, fun u => by simp, ?_⟩
    simp only [Function.update_of_ne hne, Function.update_self, ne_eq, reduceCtorEq,
      not_false_eq_true, Function.update_of_ne, List.length_drop]
    omega
  next hfew => exact ⟨s.next, s.lists, L, rfl, h, hheap, fun _ => rfl, fun _ => rfl, by omega⟩

omit [DecidableEq ι] in
theorem Laid.of_eq (h : Laid s L out) (hnext : s'.next = s.next) (hlists : s'.lists = s.lists)
    (hlaid : s'.laid = s.laid) : Laid s' L out := by
  refine ⟨?_, h.nodup, h.apart, ?_, ?_⟩
  · rw [hnext, hlists]
    exact h.piles
  · rw [hlaid]
    exact h.all
  · rw [hlaid]
    exact h.bits

/-- What a call of `pop` on the thread `t` does to the unit. -/
structure Popped (unit : Nat) (t : ι) (s : UnitPool ι) (L : Shelf ι → List Nat) (out : List Nat) (m : Option Nat)
    (s' : UnitPool ι) (L' : Shelf ι → List Nat) : Prop where
  laid : Laid s' L' (m.toList ++ out)
  moved : Moved t L L'
  conf : s'.conf = s.conf
  held : s'.held = s.held
  total : s.total = s.laid → s'.total = s'.laid
  overrun : unit * s.conf.cnt < 4294967296 → s'.overrun = s.overrun
  miss : m = none → s.conf.cnt = 0 ∨ s.conf.popCnt = 0
  dry : s.conf.popCnt = 0 → L (.wait t) = [] → L (.free t) = [] → m = none ∧ L' (.wait t) = [] ∧ L' (.free t) = []

theorem memSize_enough (unit cnt : Nat) (h : unit * cnt < 4294967296) : ¬memSize unit cnt < (sizeofMem + unit) * cnt := by
  unfold memSize
  rw [mul32_eq, Nat.mod_eq_of_lt h, Nat.add_mul]
  exact Nat.lt_irrefl _

/-- The new chunk is on the local list. -/
theorem Laid.newMem (h : Laid s L out) (hml : L .ml = []) (unit : Nat) (hbits : s.laid + s.conf.cnt < 4294967296) :
    ∃ k, Laid (newMem unit s) (Function.update L .ml k) out ∧ k.length = s.conf.cnt ∧ (newMem unit s).conf = s.conf ∧
      (newMem unit s).held = s.held ∧ (s.total = s.laid → (newMem unit s).total = (newMem unit s).laid) ∧
      (unit * s.conf.cnt < 4294967296 → (newMem unit s).overrun = s.overrun) := by
  obtain ⟨next, lists, k, hset, hlaid, hlen⟩ := h.setMemList s.conf.cnt hbits
  rw [hml, List.length_nil, Nat.zero_add] at hlen
  have hnew : UnitPool.newMem unit s = { s.relink next lists with
      laid := s.laid + s.conf.cnt
      total := add32 s.total s.conf.cnt
      overrun := s.overrun || decide (memSize unit s.conf.cnt < (sizeofMem + unit) * s.conf.cnt) } := by
    rw [UnitPool.newMem, hset]
    rfl
  rw [hnew]
  refine ⟨k, hlaid.of_eq rfl rfl rfl, hlen, rfl, rfl, fun heq => ?_, fun hfit => ?_⟩
  · change add32 s.total s.conf.cnt = s.laid + s.conf.cnt
    rw [heq, add32_of_lt hbits]
  · simp only [memSize_enough unit s.conf.cnt hfit, decide_false, Bool.or_false]

theorem Laid.popFromNew (h : Laid s L out) (hml : L .ml = []) (hheap : L .heapMl = []) (unit : Nat) (t : ι)
    (hbits : s.laid + s.conf.cnt < 4294967296) :
    ∃ m s' L', s.popFromNew unit t = (m, s') ∧ Popped unit t s L out m s' L' := by
  obtain ⟨k, h₁, hlen, hconf, hheld, htotal, hover⟩ := h.newMem hml unit hbits
  generalize hs₁ : UnitPool.newMem unit s = s₁ at h₁ hconf hheld htotal hover
  obtain ⟨next₂, lists₂, L₂, hshare, h₂, hheap₂, hwait₂, hfree₂, hml₂⟩ := h₁.share (by simpa using hheap)
  rw [Function.update_self, hlen, hconf] at hml₂
  have hwait : ∀ u, L₂ (.wait u) = L (.wait u) := fun u => by rw [hwait₂]; simp
  have hfree : ∀ u, L₂ (.free u) = L (.free u) := fun u => by rw [hfree₂]; simp
  unfold UnitPool.popFromNew
  simp only [h.clear hml, hs₁, hshare]
  cases hmem : L₂ .ml with
  | nil =>
    obtain ⟨next₃, lists₃, hpush, h₃⟩ := h₂.pushAll (p := .wait t) (q := .ml) (fun he => by cases he)
    rw [hmem, List.nil_append, Function.update_eq_self] at h₃
    rw [h₂.popOne_nil hmem]
    refine ⟨none, _, _, congrArg (Prod.mk none) hpush, ⟨h₃, ⟨fun u _ => ?_, fun u _ => ?_, ?_, ?_, ?_⟩, hconf, hheld,
      htotal, hover, fun _ => ?_, fun _ hw hf => ⟨rfl, ?_, ?_⟩⟩⟩
    · simp [hwait]
    · simp [hfree]
    · simp [hfree]
    · simp
    · simpa using hheap₂
    · rw [hmem, List.length_nil] at hml₂
      omega
    · simp [hwait, hw]
    · simp [hfree, hf]
  | cons n l =>
    obtain ⟨next₃, lists₃, next₄, lists₄, hpop, hpush, h₄⟩ := h₂.deal hmem t
    rw [hpop]
    refine ⟨some n, _, _, congrArg (Prod.mk (some n)) hpush, ⟨h₄, Moved.deal hwait hfree hheap₂ t _, hconf, hheld, htotal,
      hover, (fun hn => by cases hn), fun hz _ _ => ?_⟩⟩
    rw [hmem, List.length_cons, hz] at hml₂
    omega

/-- The three sources of `pop`, one after the other. -/
theorem Laid.pop (h : Laid s L out) (hml : L .ml = []) (hheap : L .heapMl = []) (unit : Nat) (t : ι)
    (hbits : L (.wait t) = [] → L (.free t) = [] → s.conf.popCnt = 0 ∨ L .heap = [] →
      s.laid + s.conf.cnt < 4294967296) :
    ∃ m s' L', s.pop unit t = (m, s') ∧ Popped unit t s L out m s' L' := by
  unfold UnitPool.pop
  rcases h.popFromThread hml hheap t with ⟨n, next, lists, L', hpop, hlaid, hmoved, hsome⟩ | ⟨hpop, hw, hf⟩
  · rw [hpop]
    exact ⟨some n, _, L', rfl, ⟨hlaid, hmoved, rfl, rfl, id, fun _ => rfl, (fun hn => by cases hn),
      fun _ hw hf => absurd ⟨hw, hf⟩ hsome⟩⟩
  · rw [hpop]
    rcases h.popFromMain hml hheap t with ⟨n, next, lists, L', hpop, hlaid, hmoved, hsome⟩ | ⟨next, lists, hpop, hlaid, hnone⟩
    · simp only [hpop]
      exact ⟨some n, _, L', rfl, ⟨hlaid, hmoved, rfl, rfl, id, fun _ => rfl, (fun hn => by cases hn),
        fun hz => absurd hz hsome⟩⟩
    · simp only [hpop]
      obtain ⟨m, s', L', hnew, hp⟩ := hlaid.popFromNew hml hheap unit t (hbits hw hf hnone)
      exact ⟨m, s', L', hnew, ⟨hp.laid, hp.moved, hp.conf, hp.held, hp.total, hp.overrun, hp.miss, hp.dry⟩⟩

/-- A block comes back to the thread, and with enough others from there to the heap. -/
theorem Laid.push (h : Laid s L (n :: out)) (hml : L .ml = []) (hheap : L .heapMl = []) (t : ι)
    (hshort : (L (.free t)).length < max 1 s.conf.pushCnt) :
    ∃ next lists L', s.push t n = s.relink next lists ∧ Laid (s.relink next lists) L' out ∧
      (∀ u, L' (.wait u) = L (.wait u)) ∧ (∀ u, u ≠ t → L' (.free u) = L (.free u)) ∧ L' .ml = [] ∧ L' .heapMl = [] ∧
      (L' (.free t)).length < max 1 s.conf.pushCnt := by
  obtain ⟨next, lists, hpush, hlaid⟩ := h.pushOne (.free t)
  have hcnt := (hlaid.piles.is (.free t)).cnt
  rw [Function.update_self, List.length_cons] at hcnt
  unfold UnitPool.push
  simp only [hpush]
  split
  next hfull =>
    have hne : (Shelf.heap : Shelf ι) ≠ .free t := fun he => by cases he
    obtain ⟨next', lists', hall, hlaid'⟩ := hlaid.pushAll hne
    refine ⟨next', lists', _, hall, hlaid', fun u => by simp, fun u hu => ?_, by simpa using hml, by simpa using hheap, ?_⟩
    · simp [hu]
    · rw [Function.update_self, List.length_nil]
      omega
  next hroom =>
    have hroom' : ¬s.conf.pushCnt ≤ (lists (.free t)).cnt := hroom
    have hcnt' : (lists (.free t)).cnt = (L (.free t)).length + 1 := hcnt
    refine ⟨next, lists, _, rfl, hlaid, fun u => by simp, fun u hu => by simp [hu], by simpa using hml,
      by simpa using hheap, ?_⟩
    rw [Function.update_self, List.length_cons]
    omega

end UnitPool

end Tm

end Ven
