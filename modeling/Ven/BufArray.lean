import Ven.PoolContract
import Ven.BufVars

namespace Ven

def sizeofWSABUF : Nat := 16

def sizeofMemPtr : Nat := 8

/-- The filled entries of a `BufArray`, and the room it was reserved with. -/
structure BufArray (α : Type) where
  capacity : Nat
  items : List α
deriving DecidableEq

namespace BufArray

variable {α σ : Type}

def isFull (a : BufArray α) : Bool := a.capacity == a.items.length

def empty (a : BufArray α) : Bool := a.items.length == 0

/-- `none` when `out_of_range` is thrown. -/
def pushBack (a : BufArray α) (item : α) : Option (BufArray α) :=
  if a.isFull then none else some { a with items := a.items ++ [item] }

/-- The size of the block that `reserve` allocates; `malloc_size` is a `uint32_t`. -/
def mallocSize (a : BufArray α) : Nat := u32 (a.capacity * (sizeofWSABUF + sizeofMemPtr) : Nat)

/-- Whether `push_back` writes behind that block: the `Mem*` of the next entry ends there. -/
def overruns (a : BufArray α) : Bool :=
  decide (a.mallocSize < a.capacity * sizeofWSABUF + (a.items.length + 1) * sizeofMemPtr)

def clear (P : IMemPool σ) (r : Ram σ) (a : BufArray Buf) : BufArray Buf × Ram σ :=
  ({ a with items := [] }, a.items.foldl (fun r b => Buf.destroy P r b) r)

theorem overruns_iff {a : BufArray α} (room : a.items.length < a.capacity) :
    a.overruns = true ↔ 178956970 < a.capacity := by
  rw [overruns, decide_eq_true_eq, mallocSize, u32_natCast, sizeofWSABUF, sizeofMemPtr]
  have hlt := Nat.mod_lt (a.capacity * (16 + 8)) (show 0 < 4294967296 by decide)
  by_cases hfits : a.capacity ≤ 178956970
  · rw [Nat.mod_eq_of_lt (by omega)]
    omega
  · refine ⟨fun _ => Nat.lt_of_not_le hfits, fun _ => ?_⟩
    -- from 2^28 entries on the `WSABUF`s alone are larger than any `uint32_t`
    rcases Nat.lt_or_ge a.capacity 268435456 with hsmall | hlarge
    · rw [Nat.mod_eq_sub_mod (by omega), Nat.mod_eq_of_lt (by omega)]
      omega
    · omega

end BufArray

theorem PoolContract.destroyAll_spec {σ : Type} {P : IMemPool σ} (C : PoolContract P) (bufs : List Buf)
    {r : Ram σ} {H : Multiset Nat} (h : C.Inv r (heldBy bufs + H)) :
    C.Inv (bufs.foldl (fun r b => Buf.destroy P r b) r) H ∧
      ∀ k ∈ H, SameBlock r.heap (bufs.foldl (fun r b => Buf.destroy P r b) r).heap k := by
  induction bufs generalizing r with
  | nil =>
    have h' : C.Inv r H := by simpa using h
    refine ⟨h', fun k hk => ?_⟩
    obtain ⟨m, hm⟩ := C.live h' hk
    exact SameBlock.of_eq hm rfl
  | cons b bufs ih =>
    have h' : C.Inv r (b.held + (heldBy bufs + H)) := by rwa [heldBy_cons, add_assoc] at h
    obtain ⟨hd, same⟩ := C.destroy_spec h'
    obtain ⟨hi, same'⟩ := ih hd
    refine ⟨hi, fun k hk => ?_⟩
    exact (same k (Multiset.mem_add.mpr (Or.inr hk))).trans (same' k hk)

end Ven
