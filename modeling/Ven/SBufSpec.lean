import Ven.SBuf
import Mathlib.Algebra.Order.Group.Multiset
import Mathlib.Data.Multiset.Range

namespace Ven

namespace SOVPool

variable {α : Type}

/-- Every `SOV` that was created is either free, and then empty, or one of `busy`. -/
structure Ok (p : SOVPool α) (busy : Multiset Nat) : Prop where
  whole : busy + (p.free : Multiset Nat) = Multiset.range p.totalCnt
  capacity : ∀ id, id < p.totalCnt → (p.sovs id).slist.capacity = p.arrCnt
  empty : ∀ id ∈ p.free, p.items id = []
  step : 0 < p.stepCnt
  room : 0 < p.arrCnt

/-- The pool has the same sizes, and the `SOV`s in `busy` carry the same. -/
def Same (p q : SOVPool α) (busy : Multiset Nat) : Prop :=
  q.arrCnt = p.arrCnt ∧ ∀ id ∈ busy, q.items id = p.items id

@[simp] theorem items_setItems_self (p : SOVPool α) (id : Nat) (items : List α) :
    (p.setItems id items).items id = items := by
  simp [SOVPool.items, setItems]

theorem items_setItems_of_ne (p : SOVPool α) {id k : Nat} (h : k ≠ id) (items : List α) :
    (p.setItems id items).items k = p.items k := by
  simp [SOVPool.items, setItems, h]

variable {p : SOVPool α} {busy : Multiset Nat}

theorem Ok.busy_lt (h : p.Ok busy) {id : Nat} (hid : id ∈ busy) : id < p.totalCnt := by
  rw [← Multiset.mem_range, ← h.whole]
  exact Multiset.mem_add.mpr (Or.inl hid)

theorem Ok.nodup (h : p.Ok busy) : (busy + (p.free : Multiset Nat)).Nodup := by
  rw [h.whole]
  exact Multiset.nodup_range _

theorem Ok.not_free (h : p.Ok busy) {id : Nat} (hid : id ∈ busy) : id ∉ p.free := by
  intro hf
  exact (Multiset.disjoint_left.mp (Multiset.nodup_add.mp h.nodup).2.2) hid hf

theorem Ok.setItems (h : p.Ok busy) {id : Nat} (hid : id ∈ busy) (items : List α) :
    (p.setItems id items).Ok busy := by
  refine ⟨h.whole, fun k hk => ?_, fun k hk => ?_, h.step, h.room⟩
  · have hc := h.capacity k hk
    by_cases hki : k = id
    · subst hki
      simpa [SOVPool.setItems] using hc
    · simpa [SOVPool.setItems, hki] using hc
  · have hne : k ≠ id := by
      intro hki
      subst hki
      exact h.not_free hid hk
    rw [items_setItems_of_ne p hne]
    exact h.empty k hk

theorem Ok.push {id : Nat} (h : p.Ok (id ::ₘ busy)) (hempty : p.items id = []) : (p.push id).Ok busy := by
  refine ⟨?_, h.capacity, fun k hk => ?_, h.step, h.room⟩
  · have hw := h.whole
    rw [Multiset.cons_add, ← Multiset.add_cons] at hw
    exact hw
  · rcases List.mem_cons.mp hk with rfl | hk
    · exact hempty
    · exact h.empty k hk

theorem Ok.createOne (h : p.Ok busy) : p.createOne.Ok busy ∧ p.Same p.createOne busy := by
  have hnew : ∀ k, k < p.totalCnt → p.createOne.sovs k = p.sovs k := by
    intro k hk
    have hne : k ≠ p.totalCnt := by omega
    simp [SOVPool.createOne, hne]
  refine ⟨⟨?_, fun k hk => ?_, fun k hk => ?_, h.step, h.room⟩, rfl, fun k hk => ?_⟩
  · have hw := h.whole
    change busy + (p.totalCnt ::ₘ (p.free : Multiset Nat)) = Multiset.range (p.totalCnt + 1)
    rw [Multiset.add_cons, hw, Multiset.range_succ]
  · change k < p.totalCnt + 1 at hk
    by_cases hkt : k = p.totalCnt
    · subst hkt
      simp [SOVPool.createOne]
    · rw [hnew k (by omega)]
      exact h.capacity k (by omega)
  · rcases List.mem_cons.mp hk with rfl | hk
    · simp [SOVPool.items, SOVPool.createOne]
    · have hlt : k < p.totalCnt := by
        rw [← Multiset.mem_range, ← h.whole]
        exact Multiset.mem_add.mpr (Or.inr hk)
      rw [SOVPool.items, hnew k hlt]
      exact h.empty k hk
  · rw [SOVPool.items, hnew k (h.busy_lt hk)]
    rfl

theorem Same.trans {q r : SOVPool α} (a : p.Same q busy) (b : q.Same r busy) : p.Same r busy :=
  ⟨b.1.trans a.1, fun id hid => (b.2 id hid).trans (a.2 id hid)⟩

theorem Ok.create (h : p.Ok busy) (cnt : Nat) :
    (p.create cnt).Ok busy ∧ p.Same (p.create cnt) busy ∧ (0 < cnt → (p.create cnt).free ≠ []) := by
  have grows : ∀ (cnt : Nat) (q : SOVPool α), q.free ≠ [] → (q.create cnt).free ≠ [] := by
    intro cnt
    induction cnt with
    | zero => exact fun q hq => hq
    | succ cnt ih => exact fun q _ => ih q.createOne (List.cons_ne_nil _ _)
  induction cnt generalizing p with
  | zero => exact ⟨h, ⟨rfl, fun _ _ => rfl⟩, fun hc => absurd hc (Nat.lt_irrefl 0)⟩
  | succ cnt ih =>
    obtain ⟨h₁, same₁⟩ := h.createOne
    obtain ⟨h₂, same₂, _⟩ := ih h₁
    exact ⟨h₂, same₁.trans same₂, fun _ => grows cnt _ (List.cons_ne_nil _ _)⟩

theorem ok_init {initCnt stepCnt arrCnt : Nat} (hstep : 0 < stepCnt) (harr : 0 < arrCnt) :
    (SOVPool.init initCnt stepCnt arrCnt : SOVPool α).Ok 0 := by
  have h₀ : (⟨fun _ => ⟨none, ⟨arrCnt, []⟩⟩, stepCnt, arrCnt, [], 0⟩ : SOVPool α).Ok 0 :=
    ⟨rfl, fun _ hid => absurd hid (Nat.not_lt_zero _), fun _ hid => absurd hid List.not_mem_nil, hstep, harr⟩
  exact (h₀.create initCnt).1

theorem Ok.popFree (h : p.Ok busy) (hfree : p.free ≠ []) : ∃ id q, p.popFree = (some id, q) ∧
    q.Ok (id ::ₘ busy) ∧ q.items id = [] ∧ p.Same q busy := by
  unfold SOVPool.popFree
  cases hf : p.free with
  | nil => exact absurd hf hfree
  | cons id free =>
    have hw := h.whole
    rw [hf] at hw
    refine ⟨id, _, rfl, ⟨?_, h.capacity, fun k hk => ?_, h.step, h.room⟩, ?_, rfl, fun _ _ => rfl⟩
    · rw [Multiset.cons_add, ← Multiset.add_cons]
      exact hw
    · exact h.empty k (hf ▸ List.mem_cons_of_mem id hk)
    · exact h.empty id (hf ▸ List.mem_cons_self)

theorem Ok.pop (h : p.Ok busy) : ∃ id q, p.pop = (some id, q) ∧ q.Ok (id ::ₘ busy) ∧
    q.items id = [] ∧ p.Same q busy := by
  unfold SOVPool.pop
  by_cases hf : p.free = []
  · have hnone : p.popFree = (none, p) := by
      simp [SOVPool.popFree, hf]
    obtain ⟨h₁, same₁, hne⟩ := h.create p.stepCnt
    obtain ⟨id, q, hq, h₂, hitems, same₂⟩ := h₁.popFree (hne h.step)
    rw [hnone]
    exact ⟨id, q, hq, h₂, hitems, same₁.trans same₂⟩
  · obtain ⟨id, q, hq, h₂, hitems, same⟩ := h.popFree hf
    rw [hq]
    exact ⟨id, q, rfl, h₂, hitems, same⟩

end SOVPool

namespace SBuf

variable {α : Type} {p : SOVPool α} {busy : Multiset Nat}

theorem alloc_spec {b : SBuf} (h : p.Ok busy) (hb : b.pool = true) : ∃ id q, b.alloc p = some (id, q) ∧
    q.Ok (id ::ₘ busy) ∧ q.items id = [] ∧ p.Same q busy := by
  obtain ⟨id, q, hq, hok, hitems, same⟩ := h.pop
  have hset : ∀ k, ((Function.update q.sovs id { q.sovs id with actor := b.actor }) k).slist = (q.sovs k).slist := by
    intro k
    by_cases hk : k = id
    · subst hk
      simp
    · simp [hk]
  refine ⟨id, { q with sovs := Function.update q.sovs id { q.sovs id with actor := b.actor } }, ?_,
    ⟨hok.whole, fun k hk => ?_, fun k hk => ?_, hok.step, hok.room⟩, ?_, same.1, fun k hk => ?_⟩
  · unfold alloc
    rw [if_pos hb, hq]
  · rw [hset]
    exact hok.capacity k hk
  · exact (congrArg BufArray.items (hset k)).trans (hok.empty k hk)
  · exact (congrArg BufArray.items (hset id)).trans hitems
  · exact (congrArg BufArray.items (hset k)).trans (same.2 k hk)

theorem init_spec (actor : Nat) (h : p.Ok busy) : ∃ id q,
    SBuf.init actor p = some (⟨some actor, true, some id, 0⟩, q) ∧ q.Ok (id ::ₘ busy) ∧
      q.items id = [] ∧ p.Same q busy := by
  obtain ⟨id, q, hq, h'⟩ := alloc_spec (b := { null with actor := some actor, pool := true }) h rfl
  refine ⟨id, q, ?_, h'⟩
  unfold SBuf.init
  dsimp only
  rw [hq]
  rfl

theorem uninit_spec {b : SBuf} (h : p.Ok ((b.sov.toList : Multiset Nat) + busy)) :
    (b.uninit p).1 = null ∧ (b.uninit p).2.Ok busy ∧ p.Same (b.uninit p).2 busy := by
  unfold uninit
  cases hs : b.sov with
  | none =>
    rw [hs] at h
    exact ⟨rfl, by simpa using h, rfl, fun _ _ => rfl⟩
  | some id =>
    rw [hs] at h
    have hok : p.Ok (id ::ₘ busy) := h
    have hcl := hok.setItems (Multiset.mem_cons_self id busy) []
    refine ⟨rfl, hcl.push (SOVPool.items_setItems_self p id []), rfl, fun k hk => ?_⟩
    have hne : k ≠ id := by
      intro hki
      subst hki
      have hn := (Multiset.nodup_add.mp hok.nodup).1
      exact (Multiset.nodup_cons.mp hn).1 hk
    exact SOVPool.items_setItems_of_ne p hne []

/-- With room in its array, `push` appends to the current `SOV`. -/
theorem push_spec {b : SBuf} {id : Nat} (h : p.Ok busy) (hs : b.sov = some id) (hid : id ∈ busy)
    (hroom : (p.items id).length < p.arrCnt) (buf : Option α) : ∃ q, b.push p buf = some q ∧ q.Ok busy ∧
    q.items id = p.items id ++ buf.toList ∧ (∀ k, k ≠ id → q.items k = p.items k) ∧ q.arrCnt = p.arrCnt := by
  cases buf with
  | none => exact ⟨p, rfl, h, (List.append_nil _).symm, fun _ _ => rfl, rfl⟩
  | some x =>
    have hcap := h.capacity id (h.busy_lt hid)
    have hfull : (p.sovs id).slist.isFull = false := by
      have hne : (p.sovs id).slist.capacity ≠ (p.sovs id).slist.items.length := by
        change _ ≠ (p.items id).length
        omega
      simpa [BufArray.isFull] using hne
    refine ⟨p.setItems id (p.items id ++ [x]), ?_, h.setItems hid _, SOVPool.items_setItems_self p id _,
      fun k hk => SOVPool.items_setItems_of_ne p hk _, rfl⟩
    unfold push
    dsimp only
    rw [hs]
    dsimp only
    rw [BufArray.pushBack, hfull]
    rfl

/-- `pop` leaves the current `SOV` where nothing is in it or something is being sent and there is
room left; otherwise it is replaced by an empty one. -/
theorem pop_spec {b : SBuf} {id : Nat} (h : p.Ok busy) (hs : b.sov = some id) (hid : id ∈ busy)
    (hb : b.pool = true) (hroom : (p.items id).length ≤ p.arrCnt) :
    (b.pop p = some (none, b, p) ∧
      (p.items id = [] ∨ (0 < b.popCnt ∧ (p.items id).length < p.arrCnt))) ∨
    ∃ new q, b.pop p = some (some id, { b with sov := some new, popCnt := b.popCnt + 1 }, q) ∧
      p.items id ≠ [] ∧ q.Ok (new ::ₘ busy) ∧ q.items new = [] ∧ p.Same q busy := by
  have hcap := h.capacity id (h.busy_lt hid)
  obtain ⟨actor, pool, sov, popCnt⟩ := b
  cases hs
  unfold pop
  dsimp only
  by_cases hempty : p.items id = []
  · left
    have he : (p.sovs id).slist.empty = true := by
      change ((p.items id).length == 0) = true
      rw [hempty]
      rfl
    rw [if_pos he]
    exact ⟨rfl, Or.inl hempty⟩
  have he : ¬(p.sovs id).slist.empty = true := by
    intro he
    exact hempty (List.eq_nil_of_length_eq_zero (beq_iff_eq.mp he))
  rw [if_neg he]
  let b : SBuf := ⟨actor, pool, some id, popCnt⟩
  by_cases hgo : (!b.isSending || (p.sovs id).slist.isFull) = true
  · right
    obtain ⟨new, q, hq, hok, hitems, same⟩ := alloc_spec (b := ⟨actor, pool, some id, popCnt + 1⟩) h hb
    refine ⟨new, q, ?_, hempty, hok, hitems, same⟩
    rw [if_pos hgo, get, hq]
    rfl
  · left
    rw [if_neg hgo]
    refine ⟨rfl, Or.inr ?_⟩
    obtain ⟨hsend, hfull⟩ := Bool.or_eq_false_iff.mp (Bool.not_eq_true _ ▸ hgo)
    have hpos : 0 < popCnt := by simpa [b, isSending] using hsend
    have hne : (p.sovs id).slist.capacity ≠ (p.items id).length := by
      simpa [BufArray.isFull, SOVPool.items] using hfull
    exact ⟨hpos, by omega⟩

end SBuf

end Ven
