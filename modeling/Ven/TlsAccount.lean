import Ven.TlsShelves
import Mathlib.Data.List.Nodup
import Mathlib.Algebra.BigOperators.Group.List.Basic

namespace Ven

namespace Tm

namespace UnitPool

variable {ι : Type} [DecidableEq ι]

/-- Every block ever laid out is in one list of the heap or of a thread or is held, and no list of a thread without a
`Heapt` has one. -/
structure Conserved (hlist : List ι) (s : UnitPool ι) : Prop where
  blocks : ∃ L, Laid s L s.held ∧ L .ml = [] ∧ L .heapMl = [] ∧ ∀ t, t ∉ hlist → L (.wait t) = [] ∧ L (.free t) = []
  short : ∀ t, (s.lists (.free t)).cnt < max 1 s.conf.pushCnt
  written : s.overrun = false

/-- What holds of a unit between the calls. Nobody has had a block of a unit whose `pop_cnt_` is 0. -/
structure UnitOk (hlist : List ι) (s : UnitPool ι) (L : Shelf ι → List Nat) : Prop where
  laid : Laid s L s.held
  total : s.total = s.laid
  ml : L .ml = []
  heapMl : L .heapMl = []
  idle : ∀ t, t ∉ hlist → L (.wait t) = [] ∧ L (.free t) = []
  short : ∀ t, (L (.free t)).length < max 1 s.conf.pushCnt
  dry : s.conf.popCnt = 0 → s.held = [] ∧ ∀ t, L (.wait t) = [] ∧ L (.free t) = []
  overrun : s.overrun = false

variable {s s' : UnitPool ι} {L L' : Shelf ι → List Nat} {hlist : List ι} {t : ι} {n unit : Nat}

/-- All blocks, place by place. -/
def census (hlist : List ι) (s : UnitPool ι) (L : Shelf ι → List Nat) : List Nat :=
  s.held ++ (L .heap ++ hlist.flatMap fun t => L (.wait t) ++ L (.free t))

omit [DecidableEq ι] in
theorem UnitOk.mem_census (h : UnitOk hlist s L) (x : Nat) : x ∈ census hlist s L ↔ x < s.laid := by
  unfold census
  rw [h.laid.all, List.mem_append, List.mem_append, List.mem_flatMap]
  refine or_congr_right ⟨?_, ?_⟩
  · rintro (hx | ⟨t, _, hx⟩)
    · exact ⟨.heap, hx⟩
    · rcases List.mem_append.mp hx with hx | hx
      · exact ⟨.wait t, hx⟩
      · exact ⟨.free t, hx⟩
  · rintro ⟨p, hx⟩
    cases p with
    | heap => exact Or.inl hx
    | wait t =>
      by_cases ht : t ∈ hlist
      · exact Or.inr ⟨t, ht, List.mem_append_left _ hx⟩
      · rw [(h.idle t ht).1] at hx
        cases hx
    | free t =>
      by_cases ht : t ∈ hlist
      · exact Or.inr ⟨t, ht, List.mem_append_right _ hx⟩
      · rw [(h.idle t ht).2] at hx
        cases hx
    | ml =>
      rw [h.ml] at hx
      cases hx
    | heapMl =>
      rw [h.heapMl] at hx
      cases hx

omit [DecidableEq ι] in
theorem UnitOk.census_nodup (h : UnitOk hlist s L) (hnodup : hlist.Nodup) : (census hlist s L).Nodup := by
  have apart := h.laid.piles.apart
  have each : ∀ {t x}, x ∈ L (.wait t) ++ L (.free t) → x ∈ L (.wait t) ∨ x ∈ L (.free t) := List.mem_append.mp
  refine List.nodup_append'.mpr ⟨h.laid.nodup, List.nodup_append'.mpr ⟨h.laid.piles.nodup _, ?_, ?_⟩, ?_⟩
  · refine List.nodup_flatMap.mpr ⟨fun t _ => ?_, hnodup.imp fun {t u} htu => ?_⟩
    · refine List.nodup_append'.mpr ⟨h.laid.piles.nodup _, h.laid.piles.nodup _, fun x hx hx' => ?_⟩
      cases apart _ _ x hx hx'
    · intro x hx hx'
      rcases each hx with hw | hf
      · rcases each hx' with hw' | hf'
        · exact htu (Shelf.wait.inj (apart _ _ x hw hw'))
        · cases apart _ _ x hw hf'
      · rcases each hx' with hw' | hf'
        · cases apart _ _ x hf hw'
        · exact htu (Shelf.free.inj (apart _ _ x hf hf'))
  · intro x hx hx'
    obtain ⟨t, _, ht⟩ := List.mem_flatMap.mp hx'
    rcases each ht with hw | hf
    · cases apart _ _ x hx hw
    · cases apart _ _ x hx hf
  · intro x hx hx'
    rcases List.mem_append.mp hx' with hh | hf
    · exact h.laid.apart x hx _ hh
    · obtain ⟨t, _, ht⟩ := List.mem_flatMap.mp hf
      rcases each ht with hw | hf
      · exact h.laid.apart x hx _ hw
      · exact h.laid.apart x hx _ hf

omit [DecidableEq ι] in
/-- The blocks laid out are those held and those in the lists. -/
theorem UnitOk.laid_eq (h : UnitOk hlist s L) (hnodup : hlist.Nodup) :
    s.laid = s.held.length + ((s.lists .heap).cnt + (hlist.map fun t => (s.lists (.wait t)).cnt).sum +
      (hlist.map fun t => (s.lists (.free t)).cnt).sum) := by
  have hperm : (census hlist s L).Perm (List.range s.laid) :=
    (List.perm_ext_iff_of_nodup (h.census_nodup hnodup) List.nodup_range).mpr fun x =>
      (h.mem_census x).trans List.mem_range.symm
  have hlen := hperm.length_eq
  have hcnt : ∀ p, (s.lists p).cnt = (L p).length := fun p => (h.laid.piles.is p).cnt
  have hsum : (hlist.map fun t => (L (.wait t) ++ L (.free t)).length).sum =
      (hlist.map fun t => (L (.wait t)).length).sum + (hlist.map fun t => (L (.free t)).length).sum := by
    rw [← List.sum_map_add]
    simp only [List.length_append]
  simp only [hcnt]
  rw [census, List.length_append, List.length_append, List.length_flatMap, hsum, List.length_range] at hlen
  omega

omit [DecidableEq ι] in
/-- The loop of `state` over the threads adds up what their lists count. -/
theorem foldl_state (s : UnitPool ι) (us : UnitMemState)
    (hwait : us.wait + (hlist.map fun t => (s.lists (.wait t)).cnt).sum < 4294967296)
    (hfree : us.free + (hlist.map fun t => (s.lists (.free t)).cnt).sum < 4294967296) :
    hlist.foldl (fun us t => { us with
      free := add32 us.free (s.lists (.free t)).cnt, wait := add32 us.wait (s.lists (.wait t)).cnt }) us =
    { us with
      wait := us.wait + (hlist.map fun t => (s.lists (.wait t)).cnt).sum
      free := us.free + (hlist.map fun t => (s.lists (.free t)).cnt).sum } := by
  induction hlist generalizing us with
  | nil => rfl
  | cons t hlist ih =>
    rw [List.map_cons, List.sum_cons] at hwait hfree
    rw [List.foldl_cons, add32_of_lt (by omega), add32_of_lt (by omega),
      ih _ (by simp only; omega) (by simp only; omega)]
    simp only [List.map_cons, List.sum_cons, Nat.add_assoc]

omit [DecidableEq ι] in
theorem UnitOk.conserved (h : UnitOk hlist s L) : Conserved hlist s := by
  refine ⟨⟨L, h.laid, h.ml, h.heapMl, h.idle⟩, fun t => ?_, h.overrun⟩
  rw [(h.laid.piles.is (.free t)).cnt]
  exact h.short t

omit [DecidableEq ι] in
/-- What `state` computes is what is held. -/
theorem UnitOk.state (h : UnitOk hlist s L) (hnodup : hlist.Nodup) :
    (s.state hlist).use = s.held.length ∧
      (s.state hlist).wait + (s.state hlist).free + (s.state hlist).use = (s.state hlist).total := by
  have hall := h.laid_eq hnodup
  have hbits := h.laid.bits
  have hstate : s.state hlist = ⟨s.laid, (s.lists .heap).cnt + (hlist.map fun t => (s.lists (.wait t)).cnt).sum,
      (hlist.map fun t => (s.lists (.free t)).cnt).sum, s.held.length⟩ := by
    unfold UnitPool.state
    simp only
    rw [add32_of_lt (by omega), Nat.zero_add, foldl_state s _ (by simp only; omega) (by simp only; omega)]
    simp only [h.total, Nat.zero_add, UnitMemState.mk.injEq, true_and]
    unfold u32
    omega
  rw [hstate]
  refine ⟨rfl, ?_⟩
  simp only
  omega

omit [DecidableEq ι] in
theorem UnitOk.mono (h : UnitOk hlist s L) {more : List ι} (hsub : ∀ u, u ∈ hlist → u ∈ more) : UnitOk more s L :=
  { h with idle := fun u hu => h.idle u fun hin => hu (hsub u hin) }

/-- A call of `get` on a thread that has its `Heapt`. -/
theorem UnitOk.get (h : UnitOk hlist s L) (ht : t ∈ hlist) (hfits : unit * s.conf.cnt < 4294967296)
    (hbits : (s.lists (.wait t)).cnt = 0 → (s.lists (.free t)).cnt = 0 →
      s.conf.popCnt = 0 ∨ (s.lists .heap).cnt = 0 → s.total + s.conf.cnt < 4294967296) :
    ∃ m s', s.pop unit t = (m, s') ∧ s'.conf = s.conf ∧ (∃ L', UnitOk hlist { s' with held := m.toList ++ s'.held } L') ∧
      (m = none → s.conf.cnt = 0 ∨ s.conf.popCnt = 0) ∧ (s.conf.popCnt = 0 → m = none) := by
  have hcnt : ∀ {p}, L p = [] → (s.lists p).cnt = 0 := fun {p} hp => by rw [(h.laid.piles.is p).cnt, hp]; rfl
  obtain ⟨m, s', L', hpop, hp⟩ := h.laid.pop h.ml h.heapMl unit t fun hw hf hheap => by
    rw [← h.total]
    exact hbits (hcnt hw) (hcnt hf) (hheap.imp_right hcnt)
  have hlaid : Laid s' L' (m.toList ++ s'.held) := by
    rw [hp.held]
    exact hp.laid
  refine ⟨m, s', hpop, hp.conf, ⟨L', hlaid.of_eq rfl rfl rfl, hp.total h.total, hp.moved.ml, hp.moved.heapMl, fun u hu => ?_, fun u => ?_,
    fun hz => ?_, (hp.overrun hfits).trans h.overrun⟩, hp.miss, fun hz => ?_⟩
  · have hne : u ≠ t := fun he => hu (he ▸ ht)
    rw [hp.moved.wait u hne, hp.moved.free u hne]
    exact h.idle u hu
  · rw [show ({ s' with held := m.toList ++ s'.held } : UnitPool ι).conf = s.conf from hp.conf]
    by_cases hu : u = t
    · rw [hu]
      exact Nat.lt_of_le_of_lt hp.moved.short (h.short t)
    · rw [hp.moved.free u hu]
      exact h.short u
  · rw [show ({ s' with held := m.toList ++ s'.held } : UnitPool ι).conf = s.conf from hp.conf] at hz
    obtain ⟨hheld, hempty⟩ := h.dry hz
    obtain ⟨hm, hw, hf⟩ := hp.dry hz (hempty t).1 (hempty t).2
    refine ⟨by rw [hp.held, hheld, hm]; rfl, fun u => ?_⟩
    by_cases hu : u = t
    · rw [hu]
      exact ⟨hw, hf⟩
    · rw [hp.moved.wait u hu, hp.moved.free u hu]
      exact hempty u
  · obtain ⟨_, hempty⟩ := h.dry hz
    exact (hp.dry hz (hempty t).1 (hempty t).2).1

theorem UnitOk.ret (h : UnitOk hlist s L) (ht : t ∈ hlist) (hn : n ∈ s.held) :
    (UnitPool.push { s with held := s.held.erase n } t n).conf = s.conf ∧
      ∃ L', UnitOk hlist (UnitPool.push { s with held := s.held.erase n } t n) L' := by
  have hlaid : Laid { s with held := s.held.erase n } L (n :: s.held.erase n) :=
    (h.laid.perm (List.perm_cons_erase hn)).of_eq rfl rfl rfl
  obtain ⟨next, lists, L', hpush, hlaid', hwait, hfree, hml, hheap, hshort⟩ := hlaid.push h.ml h.heapMl t (h.short t)
  rw [hpush]
  refine ⟨rfl, L', hlaid', h.total, hml, hheap, fun u hu => ?_, fun u => ?_, fun hz => ?_, h.overrun⟩
  · rw [hwait, hfree u fun he => hu (he ▸ ht)]
    exact h.idle u hu
  · by_cases hu : u = t
    · rw [hu]
      exact hshort
    · rw [hfree u hu]
      exact h.short u
  · have hnone := (h.dry hz).1
    rw [hnone] at hn
    cases hn

theorem setMemList_conf (cnt : Nat) (s : UnitPool ι) : (setMemList cnt s).conf = s.conf := by
  induction cnt generalizing s with
  | zero => rfl
  | succ cnt ih => exact ih _

theorem init_conf (conf : UnitMemConf) : (UnitPool.init conf : UnitPool ι).conf = conf := setMemList_conf conf.cnt _

/-- A unit without blocks. -/
def bare (conf : UnitMemConf) : UnitPool ι := ⟨conf, fun _ => none, fun _ => SList.empty, 0, 0, [], false⟩

omit [DecidableEq ι] in
theorem laid_bare (conf : UnitMemConf) : Laid (bare conf : UnitPool ι) (fun _ => []) [] where
  piles := ⟨fun _ => SList.is_empty _, fun _ => List.nodup_nil, fun _ _ _ hx => by cases hx⟩
  nodup := List.nodup_nil
  apart := fun _ hx => by cases hx
  all := by
    refine fun x => ⟨fun hx => absurd hx (Nat.not_lt_zero x), ?_⟩
    rintro (hx | ⟨_, hx⟩)
    · cases hx
    · cases hx
  bits := Nat.zero_lt_succ _

theorem unitOk_init {conf : UnitMemConf} (hbits : conf.cnt < 4294967296) :
    ∃ L, UnitOk ([] : List ι) (UnitPool.init conf) L := by
  obtain ⟨next, lists, k, hset, hlaid, _⟩ := (laid_bare (ι := ι) conf).setMemList conf.cnt
    (by change 0 + conf.cnt < _; omega)
  have hne : (Shelf.heap : Shelf ι) ≠ .ml := fun he => by cases he
  have his := hlaid.piles.is .ml
  rw [Function.update_self] at his
  have hmoved := hlaid.exchange hne his (SList.is_empty next)
    (by rw [Function.update_self, Function.update_of_ne hne, List.nil_append, List.append_nil]) fun _ _ _ => rfl
  unfold bare at hset
  unfold UnitPool.init
  simp only [hset]
  refine ⟨_, hmoved.of_eq rfl rfl rfl, add32_of_lt (by change 0 + conf.cnt < _; omega), by simp, by simp, fun t _ => ⟨by simp, by simp⟩,
    fun t => ?_, fun _ => ⟨rfl, fun t => ⟨by simp, by simp⟩⟩, rfl⟩
  simp

end UnitPool

end Tm

end Ven
