import Ven.RawArrayInv

namespace Ven

namespace Raw

namespace BufArrays

/-- Both arrays are as they should be. -/
def Sound (s : BufArrays) : Prop := ∀ x, (s.arrays x).Represented s.memory

/-- Each block was freed exactly once, and each pushed reference released exactly once. -/
def Accounted (s : BufArrays) : Prop :=
  (∀ id, id < s.memory.next → s.memory.frees.count id = 1) ∧ s.memory.released.Perm s.pushed

/-- The arrays are as they should be after every operation, and so is the account once they are destroyed. -/
def Keeps (s : BufArrays) (ops : List ArrayOp) : Prop :=
  Machine.Throughout step Sound s ops ∧
    ∃ t, Machine.exec step s ops = some t ∧ ∀ x, ∃ u, t.destroy x = some u ∧ u.Accounted

/-- A block whose size does not fit into `malloc_size` is not reserved, an array with a capacity is not given up
before its end, and nothing is swapped once there is a block. -/
def Careful (s : BufArrays) : ArrayOp → Prop
  | .reserve x size => (s.arrays x).m = none → size.toNat * 24 < 4294967296
  | .pushBack _ _ _ _ => True
  | .clear _ => True
  | .uninit x => (s.arrays x).capacity = 0
  | .swap x y => x = y ∨ ((s.arrays x).m = none ∧ (s.arrays y).m = none)

instance (s : BufArrays) : ∀ op, Decidable (s.Careful op)
  | .reserve x size => inferInstanceAs (Decidable ((s.arrays x).m = none → size.toNat * 24 < 4294967296))
  | .pushBack _ _ _ _ => isTrue trivial
  | .clear _ => isTrue trivial
  | .uninit x => inferInstanceAs (Decidable ((s.arrays x).capacity = 0))
  | .swap x y => inferInstanceAs (Decidable (x = y ∨ ((s.arrays x).m = none ∧ (s.arrays y).m = none)))

variable {s t : BufArrays} {ids : Bool → List Nat}

/-- The blocks are those of the arrays, each with one owner, and all others are freed; the pushed references are
those that stand in the arrays and those released. -/
structure Inv (s : BufArrays) (ids : Bool → List Nat) : Prop where
  holds : ∀ x, (s.arrays x).Holds s.memory (ids x)
  apart : ∀ x id, (s.arrays x).m = some id → (s.arrays !x).m ≠ some id
  owned : ∀ id c, s.memory.chunks id = some c → ∃ x, (s.arrays x).m = some id
  fresh : ∀ id, s.memory.next ≤ id → s.memory.chunks id = none
  freed : ∀ id, s.memory.frees.count id = if id < s.memory.next ∧ s.memory.chunks id = none then 1 else 0
  refs : ∀ x, (s.memory.released : Multiset Nat) + ids x + ids (!x) = s.pushed

/-- Arrays without a block are those never reserved. -/
def Bare (s : BufArrays) : Prop := ∀ x, (s.arrays x).m = none → (s.arrays x).capacity = 0

theorem bool_cases (x y : Bool) : y = x ∨ y = !x := by
  cases x <;> cases y <;> simp

theorem Inv.owned_other (i : Inv s ids) {x : Bool} {id : Nat} {c : Chunk} (hc : s.memory.chunks id = some c)
    (hx : (s.arrays x).m ≠ some id) : (s.arrays !x).m = some id := by
  obtain ⟨y, hy⟩ := i.owned id c hc
  rcases bool_cases x y with rfl | rfl
  · exact absurd hy hx
  · exact hy

theorem Inv.sound (i : Inv s ids) (bare : Bare s) : Sound s := fun x => (i.holds x).represented (bare x)

/-- The invariant after a change of one array and of the blocks it owns. -/
theorem Inv.set (i : Inv s ids) (x : Bool) {a : BufArray} {w : Memory} {l pushed : List Nat}
    (holds : a.Holds w l) (other : ∀ id, (s.arrays !x).m = some id → w.chunks id = s.memory.chunks id)
    (apart : ∀ id, a.m = some id → (s.arrays !x).m ≠ some id)
    (owned : ∀ id c, w.chunks id = some c → a.m = some id ∨ (s.arrays !x).m = some id)
    (fresh : ∀ id, w.next ≤ id → w.chunks id = none)
    (freed : ∀ id, w.frees.count id = if id < w.next ∧ w.chunks id = none then 1 else 0)
    (refs : (w.released : Multiset Nat) + l + ids (!x) = pushed) :
    Inv { s.set x a w with pushed := pushed } (Function.update ids x l) := by
  have hne : (!x) ≠ x := by cases x <;> decide
  have self : ({ s.set x a w with pushed := pushed } : BufArrays).arrays x = a := Function.update_self ..
  have others : ({ s.set x a w with pushed := pushed } : BufArrays).arrays (!x) = s.arrays !x :=
    Function.update_of_ne hne ..
  constructor
  · intro y
    rcases bool_cases x y with rfl | rfl
    · rw [self, Function.update_self]
      exact holds
    · rw [others, Function.update_of_ne hne]
      exact (i.holds _).frame other
  · intro y id hy
    rcases bool_cases x y with rfl | rfl
    · rw [self] at hy
      rw [others]
      exact apart id hy
    · rw [others] at hy
      rw [Bool.not_not, self]
      exact fun ha => apart id ha hy
  · intro id c hc
    rcases owned id c hc with h | h
    · exact ⟨x, by rw [self]; exact h⟩
    · exact ⟨!x, by rw [others]; exact h⟩
  · exact fresh
  · exact freed
  · intro y
    rcases bool_cases x y with rfl | rfl
    · rw [Function.update_self, Function.update_of_ne hne]
      exact refs
    · rw [Function.update_of_ne hne, Bool.not_not, Function.update_self, add_right_comm]
      exact refs

theorem inv_start : Inv start fun _ => [] where
  holds := fun _ => Or.inl ⟨rfl, rfl, rfl, rfl, rfl⟩
  apart := fun _ _ h => by cases h
  owned := fun _ _ h => by cases h
  fresh := fun _ _ => rfl
  freed := fun id => (if_neg fun h => Nat.not_lt_zero id h.1).symm
  refs := fun _ => rfl

theorem bare_start : Bare start := fun _ _ => rfl

theorem set_bare (bare : Bare s) (x : Bool) {a : BufArray} {w : Memory} {pushed : List Nat}
    (h : a.m = none → a.capacity = 0) : Bare { s.set x a w with pushed := pushed } := by
  intro y hy
  change (Function.update s.arrays x a y).m = none at hy
  change (Function.update s.arrays x a y).capacity = 0
  by_cases he : y = x
  · rw [he, Function.update_self] at hy ⊢
    exact h hy
  · rw [Function.update_of_ne he] at hy ⊢
    exact bare y hy

/-- What holds of the arrays after an operation of a careful run. -/
def Fine (t : BufArrays) : Prop := Bare t ∧ ∃ ids, Inv t ids

theorem Inv.reserve (i : Inv s ids) (bare : Bare s) {x : Bool} {size : UInt32}
    (fits : (s.arrays x).m = none → size.toNat * 24 < 4294967296) :
    ∃ t, s.step (.reserve x size) = some t ∧ Fine t := by
  cases hm : (s.arrays x).m with
  | some id =>
    refine ⟨s, ?_, bare, ids, i⟩
    simp only [BufArrays.step, BufArray.reserve, hm, BufArrays.set, Function.update_eq_self]
  | none =>
    have hempty : ids x = [] := by
      rcases i.holds x with ⟨_, _, _, _, h⟩ | ⟨id, c, ha, _⟩
      · exact h
      · rw [ha] at hm
        cases hm
    have hholds := BufArray.holds_reserve s.memory hm (fits hm)
    rw [BufArray.reserve_eq s.memory hm] at hholds
    have hne : ∀ {id}, (s.arrays !x).m = some id → id ≠ s.memory.next := by
      rintro id hid rfl
      obtain ⟨c, hc⟩ := (i.holds (!x)).live hid
      cases (i.fresh _ (Nat.le_refl _)).symm.trans hc
    refine ⟨_, by rw [BufArrays.step, BufArray.reserve_eq s.memory hm], set_bare bare x (fun h => by cases h), _,
      i.set x hholds ?_ ?_ ?_ ?_ ?_ ?_⟩
    · exact fun id hid => Function.update_of_ne (hne hid) ..
    · intro id hid hother
      exact hne hother (Option.some.inj hid).symm
    · intro id c hc
      by_cases he : id = s.memory.next
      · exact Or.inl (by rw [he])
      · have hold : s.memory.chunks id = some c := (Function.update_of_ne he ..).symm.trans hc
        exact Or.inr (i.owned_other hold (by rw [hm]; exact fun h => by cases h))
    · intro id hid
      have hlt : s.memory.next < id := hid
      exact (Function.update_of_ne (Nat.ne_of_gt hlt) ..).trans (i.fresh id (Nat.le_of_lt hlt))
    · intro id
      change s.memory.frees.count id =
        if id < s.memory.next + 1 ∧ Function.update s.memory.chunks s.memory.next _ id = none then 1 else 0
      rw [i.freed id]
      by_cases he : id = s.memory.next
      · subst he
        rw [Function.update_self, if_neg (fun h => Nat.lt_irrefl _ h.1), if_neg (fun h => by cases h.2)]
      · rw [Function.update_of_ne he]
        exact if_congr (and_congr_left fun _ => by omega) rfl rfl
    · have hrefs := i.refs x
      rw [hempty] at hrefs
      exact hrefs

theorem Inv.pushBack (i : Inv s ids) (bare : Bare s) (x : Bool) (mem pos len : Nat) :
    ∃ t, s.step (.pushBack x mem pos len) = some t ∧ Fine t := by
  cases hfull : (s.arrays x).isFull with
  | true =>
    refine ⟨s, ?_, bare, ids, i⟩
    simp [BufArrays.step, BufArray.pushBack, hfull, BufArrays.set, Function.update_eq_self]
  | false =>
    obtain ⟨id, c, c', hm, hc, hpush, hholds⟩ := (i.holds x).pushBack (bare x) hfull mem pos len
    have others : ∀ k, k ≠ id → Function.update s.memory.chunks id (some c') k = s.memory.chunks k :=
      fun k hk => Function.update_of_ne hk ..
    have gone : ∀ k, Function.update s.memory.chunks id (some c') k = none ↔ s.memory.chunks k = none := by
      intro k
      by_cases hk : k = id
      · rw [hk, Function.update_self, hc]
        exact ⟨fun h => (by cases h), fun h => (by cases h)⟩
      · rw [others k hk]
    refine ⟨_, by rw [BufArrays.step, hpush]; rfl, ?_, _, i.set x hholds ?_ ?_ ?_ ?_ ?_ ?_⟩
    · exact set_bare bare x (bare x)
    · intro k hk
      exact others k fun he => i.apart x id hm (he ▸ hk)
    · exact i.apart x
    · intro k ck hk
      by_cases he : k = id
      · exact Or.inl (he ▸ hm)
      · obtain ⟨y, hy⟩ := i.owned k ck ((others k he).symm.trans hk)
        rcases bool_cases x y with rfl | rfl
        · exact Or.inl hy
        · exact Or.inr hy
    · exact fun k hk => (gone k).mpr (i.fresh k hk)
    · intro k
      rw [i.freed k]
      exact if_congr (and_congr_right fun _ => (gone k).symm) rfl rfl
    · have hrefs := i.refs x
      change (s.memory.released : Multiset Nat) + ((ids x ++ [mem] : List Nat) : Multiset Nat) + ids (!x) =
        ((mem :: s.pushed : List Nat) : Multiset Nat)
      rw [← Multiset.coe_add, Multiset.coe_singleton, ← Multiset.cons_coe, ← hrefs, ← Multiset.singleton_add,
        ← add_assoc, add_comm _ ({mem} : Multiset Nat), add_assoc]

theorem Inv.clear (i : Inv s ids) (bare : Bare s) (x : Bool) : ∃ t, s.step (.clear x) = some t ∧ Fine t := by
  refine ⟨_, by rw [BufArrays.step, (i.holds x).clear]; rfl, ?_, _,
    i.set x ((i.holds x).cleared ((ids x).reverse ++ s.memory.released)) (fun _ _ => rfl) (i.apart x) ?_ i.fresh i.freed ?_⟩
  · exact set_bare bare x (bare x)
  · intro k c hk
    obtain ⟨y, hy⟩ := i.owned k c hk
    rcases bool_cases x y with rfl | rfl
    · exact Or.inl hy
    · exact Or.inr hy
  · have hrefs := i.refs x
    rw [← Multiset.coe_add, Multiset.coe_reverse, Multiset.coe_nil, add_zero, ← hrefs, add_comm (ids x : Multiset Nat)]

/-- Given up, an array has no block any more; its capacity stays. -/
theorem Inv.uninit (i : Inv s ids) (x : Bool) : ∃ t, s.step (.uninit x) = some t ∧
    Inv t (Function.update ids x []) ∧ t.pushed = s.pushed ∧
    t.arrays = Function.update s.arrays x ⟨(s.arrays x).capacity, 0, none, none, none⟩ := by
  have hrefs := i.refs x
  have hrel : (((ids x).reverse ++ s.memory.released : List Nat) : Multiset Nat) + ([] : List Nat) + ids (!x) =
      s.pushed := by
    rw [← Multiset.coe_add, Multiset.coe_reverse, Multiset.coe_nil, add_zero, ← hrefs, add_comm (ids x : Multiset Nat)]
  cases hm : (s.arrays x).m with
  | none =>
    refine ⟨_, ?_, i.set x (w := { s.memory with released := (ids x).reverse ++ s.memory.released })
      (Or.inl ⟨rfl, rfl, rfl, rfl, rfl⟩) (fun _ _ => rfl) (fun _ h => by cases h) ?_ i.fresh i.freed hrel, rfl, rfl⟩
    · rw [BufArrays.step, BufArray.uninit, (i.holds x).clear]
      simp [Memory.free, hm, BufArrays.set]
    · exact fun k c hk => Or.inr (i.owned_other hk (by rw [hm]; exact fun h => by cases h))
  | some id =>
    obtain ⟨c, hc⟩ := (i.holds x).live hm
    have hlt : id < s.memory.next := by
      by_contra hge
      cases (i.fresh id (by omega)).symm.trans hc
    refine ⟨_, ?_, i.set x (w := { s.memory with
        chunks := Function.update s.memory.chunks id none
        frees := id :: s.memory.frees
        released := (ids x).reverse ++ s.memory.released })
      (Or.inl ⟨rfl, rfl, rfl, rfl, rfl⟩) ?_ (fun _ h => by cases h) ?_ ?_ ?_ hrel, rfl, rfl⟩
    · rw [BufArrays.step, BufArray.uninit, (i.holds x).clear]
      simp [Memory.free, hm, hc, BufArrays.set]
    · intro k hk
      have hne : k ≠ id := by
        rintro rfl
        exact i.apart x k hm hk
      exact Function.update_of_ne hne ..
    · intro k ck hk
      by_cases he : k = id
      · subst he
        cases (Function.update_self ..).symm.trans hk
      · have hold : s.memory.chunks k = some ck := (Function.update_of_ne he ..).symm.trans hk
        refine Or.inr (i.owned_other hold fun hx => he ?_)
        exact Option.some.inj (hx.symm.trans hm)
    · intro k hk
      by_cases he : k = id
      · rw [he]
        exact Function.update_self ..
      · exact (Function.update_of_ne he ..).trans (i.fresh k hk)
    · intro k
      change (id :: s.memory.frees).count k =
        if k < s.memory.next ∧ Function.update s.memory.chunks id none k = none then 1 else 0
      by_cases he : k = id
      · subst he
        rw [List.count_cons_self, i.freed k, Function.update_self, hc, if_neg (fun h => by cases h.2), if_pos ⟨hlt, rfl⟩]
      · rw [List.count_cons_of_ne (Ne.symm he), i.freed k, Function.update_of_ne he]

/-- Two arrays that have never had a block are the same. -/
theorem Inv.same (i : Inv s ids) (bare : Bare s) {x y : Bool} (hx : (s.arrays x).m = none) (hy : (s.arrays y).m = none) :
    s.arrays x = s.arrays y := by
  have hcap := (bare x hx).trans (bare y hy).symm
  rcases i.holds x with ⟨_, hwx, hmx, hnx, _⟩ | ⟨id, c, ha, _⟩
  · rcases i.holds y with ⟨_, hwy, hmy, hny, _⟩ | ⟨id, c, ha, _⟩
    · rw [BufArray.mk.injEq]
      exact ⟨hcap, hnx.trans hny.symm, hx.trans hy.symm, hwx.trans hwy.symm, hmx.trans hmy.symm⟩
    · rw [ha] at hy
      cases hy
  · rw [ha] at hx
    cases hx

theorem Inv.step {op : ArrayOp} (i : Inv s ids) (bare : Bare s) (careful : s.Careful op) :
    ∃ t, s.step op = some t ∧ Fine t := by
  cases op with
  | reserve x size => exact i.reserve bare careful
  | pushBack x mem pos len => exact i.pushBack bare x mem pos len
  | clear x => exact i.clear bare x
  | uninit x =>
    obtain ⟨t, hs, hi, _, harrays⟩ := i.uninit x
    refine ⟨t, hs, fun y hy => ?_, _, hi⟩
    rw [harrays] at hy ⊢
    by_cases he : y = x
    · rw [he, Function.update_self]
      exact careful
    · rw [Function.update_of_ne he] at hy ⊢
      exact bare y hy
  | swap x y =>
    by_cases he : x = y
    · exact ⟨s, if_pos he, bare, ids, i⟩
    · obtain ⟨hx, hy⟩ := careful.resolve_left he
      have same := i.same bare hx hy
      refine ⟨s, ?_, bare, ids, i⟩
      rw [BufArrays.step, if_neg he, same]
      change some ⟨s.memory, Function.update (Function.update s.arrays x (s.arrays y)) y (s.arrays y), s.pushed⟩ = some s
      rw [← same, Function.update_eq_self, same, Function.update_eq_self]

/-- An array whose pointers go into the block of the other. -/
theorem Inv.crossed (i : Inv s ids) {z : Bool} {id : Nat} (hz : (s.arrays z).m = some id) :
    ¬(⟨(s.arrays !z).capacity, (s.arrays !z).nextIdx, (s.arrays z).m, (s.arrays !z).wbs, (s.arrays !z).mems⟩ :
      BufArray).Represented s.memory := by
  intro h
  rcases h.owned with ⟨hnone, _⟩ | ⟨k, c, p, q, hk, _, hw, _⟩
  · cases hnone.symm.trans hz
  · have hkz : (s.arrays z).m = some k := hk
    have hwz : (s.arrays !z).wbs = some ⟨k, p⟩ := hw
    rcases i.holds (!z) with ⟨_, hwn, _⟩ | ⟨k', c', ha, _⟩
    · cases hwn.symm.trans hwz
    · have hm' : (s.arrays !z).m = some k' := by rw [ha]
      rw [ha] at hwz
      cases hwz
      exact i.apart z k hkz hm'

/-- An operation that is not careful leaves an array that is not as it should be. -/
theorem Inv.broken {op : ArrayOp} (i : Inv s ids) (careless : ¬s.Careful op) (hs : s.step op = some t) : ¬Sound t := by
  intro sound
  cases op with
  | reserve x size =>
    obtain ⟨hm, big⟩ := Classical.not_imp.mp careless
    cases Option.some.inj hs
    have hx := sound x
    rw [show (s.set x _ _).arrays x = _ from Function.update_self ..] at hx
    exact BufArray.reserve_broken s.memory hm big hx
  | pushBack x mem pos len => exact careless trivial
  | clear x => exact careless trivial
  | uninit x =>
    obtain ⟨t', hs', _, _, harrays⟩ := i.uninit x
    cases Option.some.inj (hs.symm.trans hs')
    have hx := sound x
    rw [harrays, Function.update_self] at hx
    have hopen : (⟨(s.arrays x).capacity, 0, none, none, none⟩ : BufArray).isFull = false := by
      have hcap : ¬(s.arrays x).capacity = 0 := careless
      simpa [BufArray.isFull] using hcap
    obtain ⟨id, _, _, _, hid, _⟩ := hx.free hopen
    cases hid
  | swap x y =>
    obtain ⟨hne, hblock⟩ := not_or.mp careless
    have hy : y = !x := (bool_cases x y).resolve_left (Ne.symm hne)
    subst hy
    rw [BufArrays.step, if_neg hne] at hs
    cases Option.some.inj hs
    cases hx : (s.arrays x).m with
    | some id =>
      have h := sound x
      rw [show ((s.set x _ _).set (!x) _ _).arrays x = _ from
        (Function.update_of_ne hne ..).trans (Function.update_self ..)] at h
      exact i.crossed hx h
    | none =>
      cases hx' : (s.arrays !x).m with
      | none => exact hblock ⟨hx, hx'⟩
      | some id =>
        have h := sound (!x)
        rw [show ((s.set x _ _).set (!x) _ _).arrays (!x) = _ from Function.update_self ..] at h
        have hcross := i.crossed hx'
        rw [Bool.not_not] at hcross
        exact hcross h

theorem Inv.destroy (i : Inv s ids) (x : Bool) : ∃ t, s.destroy x = some t ∧ t.Accounted := by
  obtain ⟨u, hu, hiu, hpu, hau⟩ := i.uninit x
  obtain ⟨t, ht, hit, hpt, hat⟩ := hiu.uninit (!x)
  have hne : x ≠ !x := by cases x <;> decide
  have gone : ∀ y, (t.arrays y).m = none := by
    intro y
    rw [hat, hau]
    rcases bool_cases x y with rfl | rfl
    · rw [Function.update_of_ne hne, Function.update_self]
    · rw [Function.update_self]
  refine ⟨t, by rw [BufArrays.destroy, hu]; exact ht, fun id hid => ?_, ?_⟩
  · rw [hit.freed id]
    cases hc : t.memory.chunks id with
    | none => exact if_pos ⟨hid, rfl⟩
    | some c =>
      obtain ⟨y, hy⟩ := hit.owned id c hc
      cases (gone y).symm.trans hy
  · have hrefs := hit.refs x
    rw [Function.update_self, Function.update_of_ne hne, Function.update_self, Multiset.coe_nil, add_zero,
      add_zero] at hrefs
    exact Multiset.coe_eq_coe.mp hrefs

/-- The arrays and their account are right in exactly the careful runs. -/
theorem arrays_kept_iff (ops : List ArrayOp) : Keeps start ops ↔ Machine.Along step Careful start ops := by
  have fine : Fine start := ⟨bare_start, _, inv_start⟩
  have holds : ∀ s : BufArrays, Fine s → Sound s := fun s ⟨bare, _, i⟩ => i.sound bare
  have keep : ∀ (s : BufArrays) op t, Fine s → s.Careful op → s.step op = some t → Fine t := by
    intro s op t ⟨bare, ids, i⟩ careful hs
    obtain ⟨t', hs', ht'⟩ := i.step bare careful
    cases Option.some.inj (hs.symm.trans hs')
    exact ht'
  have broken : ∀ (s : BufArrays) op t, Fine s → ¬s.Careful op → s.step op = some t → ¬Sound t :=
    fun s op t ⟨_, ids, i⟩ careless hs => i.broken careless hs
  constructor
  · rintro ⟨always, t, run, _⟩
    exact (Machine.throughout_iff_along holds keep broken fine run).mp always
  · intro along
    obtain ⟨t, run, _, ids, i⟩ := Machine.exec_of_along (fun s op ⟨bare, ids, i⟩ careful => i.step bare careful) fine along
    exact ⟨(Machine.throughout_iff_along holds keep broken fine run).mpr along, t, run, fun x => i.destroy x⟩

/-- After a swap one array has the block, and the other one the pointers into it. -/
theorem swap_crosses_pointers : ¬Keeps start [.reserve false 1, .swap false true] := by
  rintro ⟨always, _⟩
  have h := always _ _ (List.prefix_refl _) rfl true
  rcases h.owned with ⟨_, hw, _⟩ | ⟨_, _, _, _, hm, _⟩
  · cases hw
  · cases hm

end BufArrays

end Raw

end Ven
