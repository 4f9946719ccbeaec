import Ven.Mem
import Mathlib.Algebra.BigOperators.Group.Multiset.Basic
import Mathlib.Algebra.Order.Group.Multiset

namespace Ven

variable {σ : Type}

/-- What a memory pool promises its users. `Inv r H` says that `r` is a state of the pool and its
blocks in which the references held are exactly those of `H`, one for each holder. -/
structure PoolContract (P : IMemPool σ) where
  Inv : Ram σ → Multiset Nat → Prop
  ref_eq : ∀ {r H id m}, Inv r H → r.heap id = some m → m.ref = H.count id
  live : ∀ {r H id}, Inv r H → id ∈ H → ∃ m, r.heap id = some m
  get : ∀ {r H} (size : Nat), Inv r H → ∃ id m,
    (P.get r size).1 = ⟨some id, 0, m.unit⟩ ∧ id ∉ H ∧ (P.get r size).2.heap id = some m ∧
    size ≤ m.unit ∧ Inv (P.get r size).2 (id ::ₘ H) ∧
    ∀ k ∈ H, (P.get r size).2.heap k = r.heap k
  addRef : ∀ {r H id}, Inv r H → id ∈ H → Inv (r.addRef id) (id ::ₘ H)
  relRef : ∀ {r H id}, Inv r (id ::ₘ H) →
    Inv (P.relRef r id) H ∧ ∀ k ∈ H, SameBlock r.heap (P.relRef r id).heap k
  store : ∀ {r H id} (pos : Nat) (data : List UInt8), Inv r H → id ∈ H → Inv (r.store id pos data) H

/-- The block a `Buf` holds a reference to, if any. -/
def Buf.held (b : Buf) : Multiset Nat := (b.mem.toList : Multiset Nat)

@[simp] theorem Buf.held_null : Buf.null.held = 0 := rfl

@[simp] theorem Buf.held_some (id : Nat) (pos len : Nat) :
    (Buf.mk (some id) pos len).held = {id} := rfl

theorem Buf.mem_held {b : Buf} {id : Nat} (h : b.mem = some id) : id ∈ b.held := by
  simp [Buf.held, h]

theorem Buf.copy_held (r : Ram σ) (b : Buf) : (Buf.copy r b).1.held = b.held := by
  obtain ⟨mem, pos, len⟩ := b
  cases mem with
  | none => rfl
  | some id => rfl

namespace PoolContract

variable {P : IMemPool σ} (C : PoolContract P)

include C in
theorem copy_spec {r : Ram σ} {H : Multiset Nat} {b : Buf} (h : C.Inv r (b.held + H)) :
    C.Inv (Buf.copy r b).2 ((Buf.copy r b).1.held + (b.held + H)) ∧
      ∀ k ∈ b.held + H, SameBlock r.heap (Buf.copy r b).2.heap k := by
  obtain ⟨mem, pos, len⟩ := b
  cases mem with
  | none =>
    refine ⟨by simpa [Buf.copy, Buf.held, Buf.null] using h, ?_⟩
    intro k hk
    obtain ⟨m, hm⟩ := C.live h hk
    exact SameBlock.of_eq hm rfl
  | some id =>
    refine ⟨?_, ?_⟩
    · exact C.addRef h (by simp)
    · intro k hk
      obtain ⟨m, hm⟩ := C.live h hk
      exact SameBlock.addRef hm

theorem destroy_spec {r : Ram σ} {H : Multiset Nat} {b : Buf} (h : C.Inv r (b.held + H)) :
    C.Inv (Buf.destroy P r b) H ∧ ∀ k ∈ H, SameBlock r.heap (Buf.destroy P r b).heap k := by
  obtain ⟨mem, pos, len⟩ := b
  cases mem with
  | none =>
    have h' : C.Inv r H := by simpa [Buf.held] using h
    refine ⟨h', ?_⟩
    intro k hk
    obtain ⟨m, hm⟩ := C.live h' hk
    exact SameBlock.of_eq hm rfl
  | some id => exact C.relRef h

/-- Releasing before acquiring is safe even when both objects hold the same block, because the
right-hand side still holds it. -/
theorem assign_spec {r : Ram σ} {H : Multiset Nat} {b cls : Buf}
    (h : C.Inv r (b.held + (cls.held + H))) :
    (Buf.assign P r b cls).1 = cls ∧
      C.Inv (Buf.assign P r b cls).2 (cls.held + (cls.held + H)) ∧
      ∀ k ∈ cls.held + H, SameBlock r.heap (Buf.assign P r b cls).2.heap k := by
  obtain ⟨hd, same⟩ := C.destroy_spec h
  obtain ⟨mem, pos, len⟩ := cls
  cases mem with
  | none => exact ⟨rfl, by simpa [Buf.assign, Buf.held] using hd, same⟩
  | some id =>
    refine ⟨rfl, C.addRef hd (by simp), ?_⟩
    intro k hk
    obtain ⟨m, hm⟩ := C.live hd hk
    exact (same k hk).trans (SameBlock.addRef hm)

end PoolContract

end Ven
