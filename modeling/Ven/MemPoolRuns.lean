import Ven.MemPoolGet
import Ven.BufVars

namespace Ven

namespace MemPool

theorem Core.initUnit_spec {r : Ram MemPool} {H : Multiset Nat} {conf : MemPoolConf} {u : Nat}
    (c : Core r H) (hnew : u ∉ r.pool.map.keys) (hle : u ≤ r.pool.maxUnit)
    (hstep : 1 ≤ (conf.val u).stepCnt) :
    Core (initUnit conf r u) H ∧ (initUnit conf r u).pool.maxUnit = r.pool.maxUnit ∧
      ∀ x, x ∈ (initUnit conf r u).pool.map.keys ↔ x = u ∨ x ∈ r.pool.map.keys := by
  let r₁ := modify r u fun mems =>
    { mems with total := (conf.val u).initCnt, initCnt := (conf.val u).initCnt,
                stepCnt := (conf.val u).stepCnt, delCnt := u32 ((conf.val u).initCnt * 2) }
  obtain ⟨ids, hl, hn, hm, hp, hh⟩ := pushNew_spec u (conf.val u).initCnt (r₁.pool.map.val u).free r₁
  have pool : (initUnit conf r u).pool.map = r₁.pool.map.modify u fun mems =>
      { mems with free := ids ++ (r₁.pool.map.val u).free } := by
    change ((pushNew u (conf.val u).initCnt (r₁.pool.map.val u).free r₁).2.pool.map.modify u fun mems =>
      { mems with free := (pushNew u (conf.val u).initCnt (r₁.pool.map.val u).free r₁).1 }) = _
    rw [hp, hl]
  have rest : (initUnit conf r u).pool.next = r.pool.next + (conf.val u).initCnt ∧
      (initUnit conf r u).pool.maxUnit = r.pool.maxUnit := by
    change (pushNew u (conf.val u).initCnt (r₁.pool.map.val u).free r₁).2.pool.next = _ ∧
      (pushNew u (conf.val u).initCnt (r₁.pool.map.val u).free r₁).2.pool.maxUnit = _
    rw [hp]
    exact ⟨rfl, rfl⟩
  have keys : ∀ x, x ∈ (initUnit conf r u).pool.map.keys ↔ x = u ∨ x ∈ r.pool.map.keys := by
    intro x
    have first : x ∈ r₁.pool.map.keys ↔ x = u ∨ x ∈ r.pool.map.keys := OrdMap.mem_modify_keys
    rw [pool, OrdMap.mem_modify_keys, first]
    exact ⟨fun h => h.elim Or.inl (fun h => h), Or.inr⟩
  have none : unitBlocks r u = ∅ := by
    apply Finset.eq_empty_of_forall_notMem
    intro id hid
    exact hnew (c.key (mem_unitBlocks.mp hid).2 hle)
  have own : (initUnit conf r u).pool.map.val u =
      ⟨ids ++ freeOf r u, (conf.val u).initCnt, (conf.val u).initCnt, (conf.val u).stepCnt,
        u32 ((conf.val u).initCnt * 2)⟩ := by
    rw [pool]
    simp [r₁, modify, freeOf]
  refine ⟨?_, rest.2, keys⟩
  refine c.grow hle hn hm hh rest.1 rest.2 keys ?_ ?_ ?_ ?_
  · intro v hv
    rw [pool]
    simp [r₁, modify, OrdMap.modify_val_of_ne _ _ hv]
  · rw [freeOf, own]
  · rw [own]
    exact hstep
  · rw [own, none, Finset.card_empty, Nat.zero_add]

theorem Core.initUnits_spec {conf : MemPoolConf} {H : Multiset Nat} (us : List Nat) {r : Ram MemPool}
    (c : Core r H) (hnodup : us.Nodup) (hnew : ∀ u ∈ us, u ∉ r.pool.map.keys)
    (hle : ∀ u ∈ us, u ≤ r.pool.maxUnit) (hstep : ∀ u ∈ us, 1 ≤ (conf.val u).stepCnt) :
    Core (us.foldl (initUnit conf) r) H ∧
      (us.foldl (initUnit conf) r).pool.maxUnit = r.pool.maxUnit ∧
      ∀ x, x ∈ (us.foldl (initUnit conf) r).pool.map.keys ↔ x ∈ us ∨ x ∈ r.pool.map.keys := by
  induction us generalizing r with
  | nil => exact ⟨c, rfl, by simp⟩
  | cons u us ih =>
    obtain ⟨hu, hus⟩ := List.nodup_cons.mp hnodup
    obtain ⟨hc, htop, hkeys⟩ := c.initUnit_spec (hnew u (by simp)) (hle u (by simp)) (hstep u (by simp))
    obtain ⟨hc', htop', hkeys'⟩ := ih hc hus
      (fun v hv hmem => ((hkeys v).mp hmem).elim (fun he => hu (he ▸ hv)) (hnew v (by simp [hv])))
      (fun v hv => htop ▸ hle v (by simp [hv])) (fun v hv => hstep v (by simp [hv]))
    refine ⟨hc', htop'.trans htop, ?_⟩
    intro x
    rw [List.foldl_cons, hkeys' x, hkeys x, List.mem_cons, or_left_comm, or_assoc]

/-- The units of a pool: those of the configuration, or the default ones if it is empty. -/
def configured (conf : MemPoolConf) : List Nat :=
  if conf.keys = [] then defaultConf.keys else conf.keys

theorem core_init₀ (top : Nat) :
    Core { init₀ with pool := { init₀.pool with maxUnit := top } } (0 : Multiset Nat) := by
  have absent : ∀ {id u}, unitOf init₀.heap id ≠ some u := by
    intro id u h
    cases h
  constructor
  · intro id m hm; cases hm
  · intro id hid; simp at hid
  · intro id u hu; exact absurd hu absent
  · intro u; exact List.nodup_nil
  · intro u id
    exact ⟨fun h => by simp [freeOf, init₀, OrdMap.empty, Mems.zero] at h, fun h => absurd h.1 absent⟩
  · intro id u hu; exact absurd hu absent
  · intro id _; rfl
  · intro u hu; simp [init₀, OrdMap.empty] at hu
  · intro u hu; simp [init₀, OrdMap.empty] at hu
  · intro u hu; simp [init₀, OrdMap.empty] at hu

theorem le_getLastD {l : List Nat} (h : l.Pairwise (· < ·)) {x : Nat} (hx : x ∈ l) :
    x ≤ l.getLastD 0 := by
  rcases List.eq_nil_or_concat l with rfl | ⟨init, last, rfl⟩
  · cases hx
  · rw [List.concat_eq_append] at h hx ⊢
    rw [List.getLastD_concat]
    rcases List.mem_append.mp hx with hx | hx
    · exact Nat.le_of_lt ((List.pairwise_append.mp h).2.2 x hx last (by simp))
    · have he : x = last := by simpa using hx
      omega

theorem inv_init {conf : MemPoolConf} (hstep : ∀ u ∈ conf.keys, 1 ≤ (conf.val u).stepCnt) :
    Inv (configured conf) (fun _ => none) (init conf) 0 := by
  have build : ∀ conf' : MemPoolConf, conf'.keys ≠ [] →
      (∀ u ∈ conf'.keys, 1 ≤ (conf'.val u).stepCnt) →
      Inv conf'.keys (fun _ => none) (conf'.keys.foldl (initUnit conf')
        { init₀ with pool := { init₀.pool with maxUnit := conf'.keys.getLastD 0 } }) 0 := by
    intro conf' hne hstep'
    have hlt := conf'.sorted
    obtain ⟨hc, htop, hkeys⟩ := (core_init₀ (conf'.keys.getLastD 0)).initUnits_spec conf'.keys
      (hlt.imp fun h => Nat.ne_of_lt h) (fun u _ => by simp [init₀, OrdMap.empty])
      (fun u hu => le_getLastD hlt hu) hstep'
    refine ⟨hc, ?_, ?_, fun _ _ h => by cases h⟩
    · intro x
      rw [hkeys x]
      simp [init₀, OrdMap.empty]
    · rw [htop]
      have : conf'.keys.getLastD 0 = conf'.keys.getLast hne := by
        rw [List.getLastD_eq_getLast?, List.getLast?_eq_some_getLast hne, Option.getD_some]
      simp only [this, List.getLast_mem]
  by_cases he : conf.keys = []
  · have hconf : configured conf = defaultConf.keys := if_pos he
    have hinit : init conf = defaultConf.keys.foldl (initUnit defaultConf)
        { init₀ with pool := { init₀.pool with maxUnit := defaultConf.keys.getLastD 0 } } := by
      simp only [init, if_pos he]
    rw [hconf, hinit]
    exact build defaultConf (by decide) (by decide)
  · have hconf : configured conf = conf.keys := if_neg he
    have hinit : init conf = conf.keys.foldl (initUnit conf)
        { init₀ with pool := { init₀.pool with maxUnit := conf.keys.getLastD 0 } } := by
      simp only [init, if_neg he]
    rw [hconf, hinit]
    exact build conf he hstep

end MemPool

end Ven
