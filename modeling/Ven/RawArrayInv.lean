import Ven.RawArray
import Mathlib.Data.Multiset.AddSub

namespace Ven

namespace Raw

namespace BufArray

variable {a b : BufArray} {w w' : Memory} {ids : List Nat}

/-- Entry `i` of both arrays lies inside the block that the array owns. -/
def ValidEntry (a : BufArray) (w : Memory) (i : Nat) : Prop :=
  ∃ id c p q, a.m = some id ∧ w.chunks id = some c ∧ a.wbs = some ⟨id, p⟩ ∧ a.mems = some ⟨id, q⟩ ∧
    p + (i + 1) * sizeofWSABUF ≤ c.size ∧ q + (i + 1) * sizeofMemPtr ≤ c.size

/-- The number of entries for which the block has room. -/
def room (a : BufArray) (w : Memory) : Nat :=
  ((a.m.bind w.chunks).map fun c => c.size / (sizeofWSABUF + sizeofMemPtr)).getD 0

structure Represented (a : BufArray) (w : Memory) : Prop where
  owned : (a.m = none ∧ a.wbs = none ∧ a.mems = none) ∨ ∃ id c p q, a.m = some id ∧ w.chunks id = some c ∧
    a.wbs = some ⟨id, p⟩ ∧ a.mems = some ⟨id, q⟩ ∧ p ≤ c.size ∧ q ≤ c.size
  room : a.nextIdx ≤ a.room w
  free : a.isFull = false → a.ValidEntry w a.nextIdx

/-- The array has no block, or a block with room for its capacity in which the references `ids` stand. -/
def Holds (a : BufArray) (w : Memory) (ids : List Nat) : Prop :=
  (a.m = none ∧ a.wbs = none ∧ a.mems = none ∧ a.nextIdx = 0 ∧ ids = []) ∨
  ∃ id c, a = ⟨a.capacity, ids.length, some id, some ⟨id, 0⟩, some ⟨id, a.capacity * sizeofWSABUF⟩⟩ ∧
    w.chunks id = some c ∧ c.size = a.capacity * (sizeofWSABUF + sizeofMemPtr) ∧ ids.length ≤ a.capacity ∧
    ∀ i (hi : i < ids.length), c.mems (a.capacity * sizeofWSABUF + i * sizeofMemPtr) = some (some ids[i])

theorem Holds.frame (h : Holds a w ids) (same : ∀ id, a.m = some id → w'.chunks id = w.chunks id) :
    Holds a w' ids := by
  rcases h with h | ⟨id, c, ha, hc, rest⟩
  · exact Or.inl h
  · exact Or.inr ⟨id, c, ha, (same id (by rw [ha])).trans hc, rest⟩

theorem Holds.nextIdx (h : Holds a w ids) : a.nextIdx = ids.length := by
  rcases h with ⟨_, _, _, hn, rfl⟩ | ⟨id, c, ha, _⟩
  · exact hn
  · rw [ha]

theorem Holds.represented (h : Holds a w ids) (bare : a.m = none → a.capacity = 0) : a.Represented w := by
  rcases h with ⟨hm, hw, hs, hn, _⟩ | ⟨id, c, ha, hc, hsize, hle, _⟩
  · refine ⟨Or.inl ⟨hm, hw, hs⟩, ?_, fun hf => ?_⟩
    · rw [hn]
      exact Nat.zero_le _
    · simp [isFull, bare hm, hn] at hf
  · have hm : a.m = some id := by rw [ha]
    have hw : a.wbs = some ⟨id, 0⟩ := by rw [ha]
    have hs : a.mems = some ⟨id, a.capacity * sizeofWSABUF⟩ := by rw [ha]
    have hn : a.nextIdx = ids.length := by rw [ha]
    simp only [sizeofWSABUF, sizeofMemPtr] at hsize hs
    refine ⟨Or.inr ⟨id, c, _, _, hm, hc, hw, hs, by omega, by omega⟩, ?_, fun hf => ?_⟩
    · simp only [room, hm, Option.bind_some, hc, Option.map_some, Option.getD_some, sizeofWSABUF, sizeofMemPtr]
      omega
    · have hlt : a.capacity ≠ a.nextIdx := by simpa [isFull] using hf
      refine ⟨id, c, _, _, hm, hc, hw, hs, ?_, ?_⟩
      · simp only [sizeofWSABUF]
        omega
      · simp only [sizeofMemPtr]
        omega

theorem Holds.loadMem (h : Holds a w ids) {i : Nat} (hi : i < ids.length) : w.loadMem a.mems i = some ids[i] := by
  rcases h with ⟨_, _, _, _, rfl⟩ | ⟨id, c, ha, hc, hsize, hle, hcells⟩
  · exact absurd hi (Nat.not_lt_zero i)
  · have hs : a.mems = some ⟨id, a.capacity * sizeofWSABUF⟩ := by rw [ha]
    have hin : a.capacity * sizeofWSABUF + i * sizeofMemPtr + sizeofMemPtr ≤ c.size := by
      simp only [sizeofWSABUF, sizeofMemPtr] at hsize ⊢
      omega
    simp only [Memory.loadMem, hs, Option.bind_some, hc, hin, if_true, hcells i hi, Option.join_some]

theorem relRefs_spec (mems : Option Ptr) (ids : List Nat) {i : Nat} {w : Memory}
    (loads : ∀ j (hj : j < ids.length), w.loadMem mems (i + j) = some ids[j]) :
    relRefs mems i ids.length w = some { w with released := ids.reverse ++ w.released } := by
  induction ids generalizing i w with
  | nil => rfl
  | cons id ids ih =>
    have hfirst : w.loadMem mems i = some id := loads 0 (Nat.succ_pos _)
    have hrest := ih (i := i + 1) (w := w.relRef id) fun j hj => by
      have hj' := loads (j + 1) (Nat.succ_lt_succ hj)
      rw [← Nat.add_assoc, Nat.add_right_comm] at hj'
      exact hj'
    rw [List.length_cons, relRefs, hfirst, Option.bind_some, hrest]
    simp [Memory.relRef]

theorem Holds.clear (h : Holds a w ids) :
    a.clear w = some ({ a with nextIdx := 0 }, { w with released := ids.reverse ++ w.released }) := by
  have hrel := relRefs_spec a.mems ids (i := 0) (w := w) fun j hj => by
    rw [Nat.zero_add]
    exact h.loadMem hj
  rw [BufArray.clear, h.nextIdx, hrel]
  rfl

theorem Holds.cleared (h : Holds a w ids) (released : List Nat) :
    Holds { a with nextIdx := 0 } { w with released := released } [] := by
  rcases h with ⟨hm, hw, hs, _, _⟩ | ⟨id, c, ha, hc, hsize, hle, _⟩
  · exact Or.inl ⟨hm, hw, hs, rfl, rfl⟩
  · refine Or.inr ⟨id, c, ?_, hc, hsize, Nat.zero_le _, fun i hi => absurd hi (Nat.not_lt_zero i)⟩
    rw [ha]
    rfl

theorem Holds.live (h : Holds a w ids) {id : Nat} (hm : a.m = some id) : ∃ c, w.chunks id = some c := by
  rcases h with ⟨hnone, _⟩ | ⟨id', c, ha, hc, _⟩
  · cases hnone.symm.trans hm
  · have hsame : a.m = some id' := by rw [ha]
    cases Option.some.inj (hsame.symm.trans hm)
    exact ⟨c, hc⟩

/-- `push_back` into an array that is not full writes its entry behind the others. -/
theorem Holds.pushBack (h : Holds a w ids) (bare : a.m = none → a.capacity = 0) (room : a.isFull = false)
    (mem pos len : Nat) : ∃ id c c', a.m = some id ∧ w.chunks id = some c ∧
      a.pushBack w ⟨some mem, pos, len⟩ = some (Buf.null, { a with nextIdx := a.nextIdx + 1 },
        { w with chunks := Function.update w.chunks id (some c') }) ∧
      Holds { a with nextIdx := a.nextIdx + 1 } { w with chunks := Function.update w.chunks id (some c') }
        (ids ++ [mem]) := by
  have hne : a.capacity ≠ a.nextIdx := by simpa [isFull] using room
  rcases h with ⟨hm, _, _, hn, _⟩ | ⟨id, c, ha, hc, hsize, hle, hcells⟩
  · exact absurd ((bare hm).trans hn.symm) hne
  · have hm : a.m = some id := by rw [ha]
    have hw : a.wbs = some ⟨id, 0⟩ := by rw [ha]
    have hs : a.mems = some ⟨id, a.capacity * sizeofWSABUF⟩ := by rw [ha]
    have hn : a.nextIdx = ids.length := by rw [ha]
    let off := a.capacity * sizeofWSABUF + ids.length * sizeofMemPtr
    let c' : Chunk :=
      { size := c.size
        wsabufs := Function.update c.wsabufs (0 + ids.length * sizeofWSABUF) (some ⟨(some mem, pos), len⟩)
        mems := Function.update c.mems off (some (some mem)) }
    have hin₁ : 0 + ids.length * sizeofWSABUF + sizeofWSABUF ≤ c.size := by
      simp only [sizeofWSABUF, sizeofMemPtr] at hsize ⊢
      omega
    have hin₂ : a.capacity * sizeofWSABUF + ids.length * sizeofMemPtr + sizeofMemPtr ≤ c.size := by
      simp only [sizeofWSABUF, sizeofMemPtr] at hsize ⊢
      omega
    refine ⟨id, c, c', hm, hc, ?_, ?_⟩
    · simp only [BufArray.pushBack, room, hw, hs, hn, Memory.storeWsabuf, Memory.storeMem, Option.bind_some, hc,
        hin₁, hin₂, if_true, Buf.dettach, Function.update_self, Function.update_idem, Option.map_some]
      rfl
    · refine Or.inr ⟨id, c', ?_, Function.update_self .., hsize, ?_, fun i hi => ?_⟩
      · rw [ha, List.length_append]
        rfl
      · rw [List.length_append, List.length_singleton]
        change ids.length + 1 ≤ a.capacity
        omega
      · rw [List.length_append, List.length_singleton] at hi
        change Function.update c.mems off (some (some mem)) (a.capacity * sizeofWSABUF + i * sizeofMemPtr) = _
        by_cases he : i = ids.length
        · subst he
          rw [Function.update_self, List.getElem_concat_length rfl]
        · have hoff : a.capacity * sizeofWSABUF + i * sizeofMemPtr ≠ off := by
            simp only [off, sizeofMemPtr]
            omega
          rw [Function.update_of_ne hoff, hcells i (by omega), List.getElem_append_left (by omega)]

theorem reserve_eq (w : Memory) {size : UInt32} (hm : a.m = none) :
    a.reserve w size = (⟨size.toNat, 0, some w.next, some ⟨w.next, 0⟩, some ⟨w.next, size.toNat * sizeofWSABUF⟩⟩,
      (w.malloc (u32 (size.toNat * (sizeofWSABUF + sizeofMemPtr) : Nat))).2) := by
  unfold reserve
  rw [hm]
  rfl

/-- The block of a reserved array has room for its capacity as long as its size fits into `malloc_size`. -/
theorem holds_reserve (w : Memory) {size : UInt32} (hm : a.m = none) (fits : size.toNat * 24 < 4294967296) :
    Holds (a.reserve w size).1 (a.reserve w size).2 [] := by
  refine Or.inr ⟨w.next, ⟨size.toNat * 24, fun _ => none, fun _ => none⟩, ?_, ?_, ?_, Nat.zero_le _,
    fun i hi => absurd hi (Nat.not_lt_zero i)⟩
  · simp [reserve, hm, Memory.malloc]
  · have hmalloc : u32 (size.toNat * 24 : Nat) = size.toNat * 24 := u32_of_lt fits
    simpa [reserve, hm, Memory.malloc, sizeofWSABUF, sizeofMemPtr] using hmalloc
  · simp [reserve, hm, sizeofWSABUF, sizeofMemPtr]

/-- Otherwise the array is not full and has no valid entry. -/
theorem reserve_broken (w : Memory) {size : UInt32} (hm : a.m = none) (big : ¬size.toNat * 24 < 4294967296) :
    ¬(a.reserve w size).1.Represented (a.reserve w size).2 := by
  intro h
  have hsize := size.toNat_lt
  have hopen : (a.reserve w size).1.isFull = false := by
    simp only [reserve, hm, isFull, beq_eq_false_iff_ne, ne_eq]
    omega
  obtain ⟨id, c, p, q, hid, hc, hwbs, hmems, hp, hq⟩ := h.free hopen
  simp only [reserve, hm, Memory.malloc, Option.some.injEq] at hid hmems hc hq
  subst hid
  rw [Function.update_self] at hc
  cases hmems
  have hlen : c.size = size.toNat * 24 % 4294967296 := by
    rw [← Option.some.inj hc]
    simp only [sizeofWSABUF, sizeofMemPtr, u32_natCast]
  simp only [sizeofWSABUF, sizeofMemPtr] at hq
  have hwrap : 1 ≤ size.toNat * 24 / 4294967296 := by omega
  omega

end BufArray

end Raw

end Ven
