import Ven.Ranges
import Ven.TlsConservation

namespace Ven

namespace Tm

/-- A `Mem` object and the memory that its `addr_` points to. Addresses count from the start of the allocated block. -/
structure Piece where
  mem : Nat
  addr : Nat
  unit : Nat
deriving DecidableEq

/-- The bytes of the object, and `addr_[0, unit_)`. -/
def Piece.ranges (m : Piece) : List (Nat × Nat) := [(m.mem, m.mem + sizeofMem), (m.addr, m.addr + m.unit)]

/-- What `malloc` was asked for, where the pointer of `set_mem_list` ended, and the lists, one for each unit. -/
structure Chunk where
  size : Nat
  used : Nat
  map : List (Nat × List Piece)

def Chunk.ranges (c : Chunk) : List (Nat × Nat) := c.map.flatMap fun ml => ml.2.flatMap Piece.ranges

/-- `units` are the `units_` of `state_`. -/
structure MemAlloc where
  units : OrdMap UnitMemState

namespace MemAlloc

def init : MemAlloc := ⟨OrdMap.empty ⟨0, 0, 0, 0⟩⟩

/-- The loop of `set_mem_list`, from `p` on. -/
def setMemList (unit : Nat) : Nat → Nat → List Piece → Nat × List Piece
  | 0, p, ml => (p, ml)
  | cnt + 1, p, ml => setMemList unit cnt (p + sizeofMem + unit) (⟨p, p + sizeofMem, unit⟩ :: ml)

/-- `state_.units_[unit].total_ += cnt` -/
def count (a : MemAlloc) (unit cnt : Nat) : MemAlloc :=
  ⟨a.units.modify unit fun us => { us with total := add32 us.total cnt }⟩

def newMem (a : MemAlloc) (unit cnt : Nat) : Chunk × MemAlloc :=
  let size := memSize unit cnt
  let (p, ml) := setMemList unit cnt 0 []
  (⟨size, p, [(unit, ml)]⟩, a.count unit cnt)

/-- The first loop of `new_mem_for_heap`; `size` is a 64-bit `size_t`. -/
def heapSize (conf : MemConf) : List Nat → Nat → Nat
  | [], size => size
  | unit :: keys, size => heapSize conf keys ((size + memSize unit (conf.val unit).cnt) % 18446744073709551616)

/-- The second loop, from `b` on. -/
def layHeap (conf : MemConf) : List Nat → Nat → List (Nat × List Piece) → MemAlloc → Nat × List (Nat × List Piece) × MemAlloc
  | [], b, map, a => (b, map, a)
  | unit :: keys, b, map, a =>
    let cnt := (conf.val unit).cnt
    let (b, ml) := setMemList unit cnt b []
    layHeap conf keys b (map ++ [(unit, ml)]) (a.count unit cnt)

def newMemForHeap (a : MemAlloc) (conf : MemConf) : Chunk × MemAlloc :=
  let size := heapSize conf conf.keys 0
  let (b, map, a) := layHeap conf conf.keys 0 [] a
  (⟨size, b, map⟩, a)

end MemAlloc

/-- The pointer stays inside the allocated block, and so does everything that was laid out, without overlaps. -/
structure Chunk.Contained (c : Chunk) : Prop where
  room : c.used ≤ c.size
  placed : Ranges.Placed 0 c.size c.ranges

/-- Keys and counts are `uint32_t`. -/
def Conf32 (conf : MemConf) : Prop := ∀ u ∈ conf.keys, u < 4294967296 ∧ (conf.val u).cnt < 4294967296

instance : DecidablePred Conf32 := fun _ => inferInstanceAs (Decidable (∀ _ ∈ _, _))

/-- Every allocation for the configuration, of a unit or of all of them, contains its layout. -/
structure LaidOut (a : MemAlloc) (conf : MemConf) : Prop where
  unit : ∀ u ∈ conf.keys, (a.newMem u (conf.val u).cnt).1.Contained
  heap : (a.newMemForHeap conf).1.Contained

namespace MemAlloc

open Ranges

variable {conf : MemConf} {lo p : Nat}

theorem setMemList_end (unit cnt p : Nat) (ml : List Piece) :
    (setMemList unit cnt p ml).1 = p + (sizeofMem + unit) * cnt := by
  induction cnt generalizing p ml with
  | zero => rfl
  | succ cnt ih =>
    rw [setMemList, ih, Nat.mul_succ]
    omega

theorem setMemList_placed (unit cnt : Nat) {ml : List Piece} (h : Placed lo p (ml.flatMap Piece.ranges)) (hle : lo ≤ p) :
    Placed lo (setMemList unit cnt p ml).1 ((setMemList unit cnt p ml).2.flatMap Piece.ranges) := by
  induction cnt generalizing p ml with
  | zero => exact h
  | succ cnt ih =>
    rw [setMemList]
    refine ih ?_ (by omega)
    rw [List.flatMap_cons]
    refine Placed.swap ?_
    have hmem : Placed p (p + sizeofMem) [(p, p + sizeofMem)] := placed_single (by omega)
    have haddr : Placed (p + sizeofMem) (p + sizeofMem + unit) [(p + sizeofMem, p + sizeofMem + unit)] :=
      placed_single (by omega)
    exact h.append (hmem.append haddr (by omega) (by omega)) hle (by omega)

/-- The bytes that the layout of these units takes. -/
def used (conf : MemConf) (keys : List Nat) : Nat := (keys.map fun u => (sizeofMem + u) * (conf.val u).cnt).sum

theorem layHeap_end (conf : MemConf) (keys : List Nat) (b : Nat) (map : List (Nat × List Piece)) (a : MemAlloc) :
    (layHeap conf keys b map a).1 = b + used conf keys := by
  induction keys generalizing b map a with
  | nil => rfl
  | cons unit keys ih =>
    have hused : used conf (unit :: keys) = (sizeofMem + unit) * (conf.val unit).cnt + used conf keys := by
      simp [used]
    rw [layHeap, ih, setMemList_end, hused]
    omega

theorem layHeap_placed (keys : List Nat) {b : Nat} {map : List (Nat × List Piece)} (a : MemAlloc)
    (h : Placed 0 b (map.flatMap fun ml => ml.2.flatMap Piece.ranges)) :
    Placed 0 (layHeap conf keys b map a).1
      ((layHeap conf keys b map a).2.1.flatMap fun ml => ml.2.flatMap Piece.ranges) := by
  induction keys generalizing b map a with
  | nil => exact h
  | cons unit keys ih =>
    rw [layHeap]
    refine ih _ ?_
    have hnil : Placed b b (([] : List Piece).flatMap Piece.ranges) := placed_nil b b
    have hnew := setMemList_placed unit (conf.val unit).cnt hnil (Nat.le_refl b)
    have hend := setMemList_end unit (conf.val unit).cnt b []
    rw [List.flatMap_append]
    simpa using h.append hnew (Nat.zero_le b) (by rw [hend]; omega)

/-- Only the size matters. -/
theorem contained_iff {c : Chunk} (h : Placed 0 c.used c.ranges) : c.Contained ↔ c.used ≤ c.size :=
  ⟨fun hc => hc.room, fun hle => ⟨hle, h.mono hle⟩⟩

theorem newMem_size (a : MemAlloc) (unit cnt : Nat) : (a.newMem unit cnt).1.size = memSize unit cnt := rfl

theorem newMem_used (a : MemAlloc) (unit cnt : Nat) : (a.newMem unit cnt).1.used = (sizeofMem + unit) * cnt := by
  have hend := setMemList_end unit cnt 0 []
  rw [Nat.zero_add] at hend
  exact hend

theorem newMem_contained (a : MemAlloc) (unit cnt : Nat) :
    (a.newMem unit cnt).1.Contained ↔ unit * cnt < 4294967296 := by
  have hnil : Placed 0 0 (([] : List Piece).flatMap Piece.ranges) := placed_nil 0 0
  have hplaced := setMemList_placed unit cnt hnil (Nat.le_refl 0)
  have hc : Placed 0 (a.newMem unit cnt).1.used (a.newMem unit cnt).1.ranges := by
    simpa [newMem, Chunk.ranges] using hplaced
  rw [contained_iff hc, newMem_used, newMem_size]
  constructor
  · intro hle
    by_contra hbig
    have hlt := TlsMemPool.memSize_lt hbig
    omega
  · intro hfit
    exact Nat.le_of_not_lt (UnitPool.memSize_enough unit cnt hfit)

/-- The bytes that `mem_size` counts for these units. -/
def counted (conf : MemConf) (keys : List Nat) : Nat := (keys.map fun u => memSize u (conf.val u).cnt).sum

theorem heapSize_le (conf : MemConf) (keys : List Nat) (size : Nat) : heapSize conf keys size ≤ size + counted conf keys := by
  induction keys generalizing size with
  | nil => exact Nat.le_refl size
  | cons unit keys ih =>
    have hcounted : counted conf (unit :: keys) = memSize unit (conf.val unit).cnt + counted conf keys := by
      simp [counted]
    have hrest := ih ((size + memSize unit (conf.val unit).cnt) % 18446744073709551616)
    rw [heapSize, hcounted]
    omega

theorem heapSize_eq (keys : List Nat) {size : Nat} (h : size + counted conf keys < 18446744073709551616) :
    heapSize conf keys size = size + counted conf keys := by
  induction keys generalizing size with
  | nil => rfl
  | cons unit keys ih =>
    have hcounted : counted conf (unit :: keys) = memSize unit (conf.val unit).cnt + counted conf keys := by
      simp [counted]
    rw [hcounted] at h ⊢
    rw [heapSize, Nat.mod_eq_of_lt (by omega), ih (by omega)]
    omega

theorem unit_bytes_le {u c : Nat} (hc : c < 4294967296) (h : u * c < 4294967296) :
    (sizeofMem + u) * c ≤ 176093659095 ∧ (1000 ≤ u → (sizeofMem + u) * c ≤ 4466765975) ∧
      (2147483648 ≤ u → (sizeofMem + u) * c ≤ 40 + u) := by
  have hsplit : (sizeofMem + u) * c = 40 * c + u * c := Nat.add_mul 40 u c
  rw [hsplit]
  refine ⟨by omega, ?_, ?_⟩
  · intro hu
    have hle : 1000 * c ≤ u * c := Nat.mul_le_mul_right c hu
    omega
  · intro hu
    have hone : c ≤ 1 := by
      by_contra hgt
      have hle : 2147483648 * 2 ≤ u * c := Nat.mul_le_mul hu (by omega)
      omega
    rcases Nat.le_one_iff_eq_zero_or_eq_one.mp hone with rfl | rfl
    · omega
    · omega

/-- Small units are few, and a large unit has few blocks. -/
theorem sum_units_lt {s : Finset Nat} {f : Nat → Nat} (h : ∀ u ∈ s, f u ≤ 176093659095 ∧ (1000 ≤ u → f u ≤ 4466765975) ∧
    (2147483648 ≤ u → f u ≤ 40 + u) ∧ u < 4294967296) : s.sum f < 18446744073709551616 := by
  have hsplit₁ := sum_split s f 1000
  have hsplit₂ := sum_split (s.filter (1000 ≤ ·)) f 2147483648
  have hsplit₃ := sum_split ((s.filter (1000 ≤ ·)).filter (2147483648 ≤ ·)) f 3221225472
  have hsmall : (s.filter (· < 1000)).sum f ≤ (1000 - 0) * 176093659095 := by
    refine sum_le_between (fun u hu => ?_) fun u hu => ?_
    · exact ⟨Nat.zero_le u, (Finset.mem_filter.mp hu).2⟩
    · exact (h u (Finset.mem_filter.mp hu).1).1
  have hlow : ((s.filter (1000 ≤ ·)).filter (· < 2147483648)).sum f ≤ (2147483648 - 1000) * 4466765975 := by
    refine sum_le_between (fun u hu => ?_) fun u hu => ?_
    all_goals obtain ⟨hu, hlt⟩ := Finset.mem_filter.mp hu
    all_goals obtain ⟨hs, hge⟩ := Finset.mem_filter.mp hu
    · exact ⟨hge, hlt⟩
    · exact (h u hs).2.1 hge
  have hmid : (((s.filter (1000 ≤ ·)).filter (2147483648 ≤ ·)).filter (· < 3221225472)).sum f ≤
      (3221225472 - 2147483648) * 3221225511 := by
    refine sum_le_between (fun u hu => ?_) fun u hu => ?_
    all_goals obtain ⟨hu, hlt⟩ := Finset.mem_filter.mp hu
    all_goals obtain ⟨hu, hge⟩ := Finset.mem_filter.mp hu
    · exact ⟨hge, hlt⟩
    · have hle := (h u (Finset.mem_filter.mp hu).1).2.2.1 hge
      omega
  have hhigh : (((s.filter (1000 ≤ ·)).filter (2147483648 ≤ ·)).filter (3221225472 ≤ ·)).sum f ≤
      (4294967296 - 3221225472) * 4466765975 := by
    refine sum_le_between (fun u hu => ?_) fun u hu => ?_
    all_goals obtain ⟨hu, hge⟩ := Finset.mem_filter.mp hu
    all_goals have hs := h u (Finset.mem_filter.mp (Finset.mem_filter.mp hu).1).1
    · exact ⟨hge, hs.2.2.2⟩
    · exact hs.2.1 (by omega)
  omega

/-- As long as no product of 32 bits wraps, the sum of 64 bits does not. -/
theorem used_lt (hconf : Conf32 conf) (hfit : ∀ u ∈ conf.keys, u * (conf.val u).cnt < 4294967296) :
    used conf conf.keys < 18446744073709551616 := by
  have hnodup : conf.keys.Nodup := conf.sorted.imp fun h => Nat.ne_of_lt h
  unfold used
  rw [← List.sum_toFinset (fun u => (sizeofMem + u) * (conf.val u).cnt) hnodup]
  refine sum_units_lt fun u hu => ?_
  have hmem := List.mem_toFinset.mp hu
  obtain ⟨h1, h2, h3⟩ := unit_bytes_le (hconf u hmem).2 (hfit u hmem)
  exact ⟨h1, h2, h3, (hconf u hmem).1⟩

theorem counted_eq_used (hfit : ∀ u ∈ conf.keys, u * (conf.val u).cnt < 4294967296) :
    counted conf conf.keys = used conf conf.keys := by
  refine congrArg List.sum (List.map_congr_left fun u hu => ?_)
  exact Nat.le_antisymm (TlsMemPool.memSize_le u _) (Nat.le_of_not_lt (UnitPool.memSize_enough u _ (hfit u hu)))

theorem newMemForHeap_contained (a : MemAlloc) (hconf : Conf32 conf) :
    (a.newMemForHeap conf).1.Contained ↔ ∀ u ∈ conf.keys, u * (conf.val u).cnt < 4294967296 := by
  have hplaced : Placed 0 (a.newMemForHeap conf).1.used (a.newMemForHeap conf).1.ranges :=
    layHeap_placed conf.keys a (placed_nil 0 0)
  have hused : (a.newMemForHeap conf).1.used = used conf conf.keys := by
    have hend := layHeap_end conf conf.keys 0 [] a
    rw [Nat.zero_add] at hend
    exact hend
  have hsize : (a.newMemForHeap conf).1.size = heapSize conf conf.keys 0 := rfl
  rw [contained_iff hplaced, hused, hsize]
  constructor
  · intro hle u hu
    by_contra hbig
    have hsum := heapSize_le conf conf.keys 0
    have hlt : counted conf conf.keys < used conf conf.keys :=
      List.sum_lt_sum _ _ (fun v _ => TlsMemPool.memSize_le v _) ⟨u, hu, TlsMemPool.memSize_lt hbig⟩
    omega
  · intro hfit
    have heq := counted_eq_used hfit
    have hlt := used_lt hconf hfit
    rw [heapSize_eq conf.keys (by omega)]
    omega

theorem laidOut_iff (a : MemAlloc) (hconf : Conf32 conf) :
    LaidOut a conf ↔ ∀ u ∈ conf.keys, u * (conf.val u).cnt < 4294967296 := by
  constructor
  · intro h
    exact (newMemForHeap_contained a hconf).mp h.heap
  · intro hfit
    exact ⟨fun u hu => (newMem_contained a u _).mpr (hfit u hu), (newMemForHeap_contained a hconf).mpr hfit⟩

theorem laidOut_default : LaidOut init TlsMemPool.defaultConf := (laidOut_iff init (by decide)).mpr (by decide)

/-- 65536 blocks of 65536 bytes -/
def wide : MemConf := ⟨[65536], fun _ => ⟨65536, 10, 5⟩, List.pairwise_singleton _ _⟩

/-- The product wraps around to 0: there is room for the `Mem` objects alone. -/
theorem not_laidOut_wide : Conf32 wide ∧ (init.newMem 65536 65536).1.size = 2621440 ∧
    (init.newMem 65536 65536).1.used = 4297588736 ∧ ¬LaidOut init wide := by
  have hconf : Conf32 wide := by
    intro u hu
    cases List.mem_singleton.mp hu
    decide
  refine ⟨hconf, ?_, ?_, ?_⟩
  · rw [newMem_size]
    decide
  · rw [newMem_used]
    decide
  · intro h
    have hfit := (newMemForHeap_contained init hconf).mp h.heap 65536 List.mem_cons_self
    exact absurd hfit (by decide)

end MemAlloc

end Tm

end Ven
