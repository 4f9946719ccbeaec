import Ven.ReceiverRuns
import Ven.MemPoolRuns

namespace Ven

variable {σ : Type} {P : IMemPool σ} {V : ISessionTCP}

open Receiver

/-- A session before its first connection, with empty send arrays. -/
def Receiver.start (r : Ram σ) (others : List Buf) (dettached : List Nat) (sends : List (BufArray Buf)) :
    Receiver σ :=
  ⟨r, RBuf.null, false, false, 0, Buf.null, [], sends, others, dettached, []⟩

theorem sessionInv_start (C : PoolContract P) {r : Ram σ} {others : List Buf} {dettached : List Nat}
    {sends : List (BufArray Buf)} (h : C.Inv r (heldBy others + (dettached : Multiset Nat)))
    (hempty : ∀ a ∈ sends, a.items = []) : SessionInv C (Receiver.start r others dettached sends) := by
  have hbufs : (Receiver.start r others dettached sends).userBufs = [Buf.null] := by
    have hnil : sends.flatMap BufArray.items = [] := List.flatMap_eq_nil_iff.mpr hempty
    simp [Receiver.start, userBufs, hnil]
  have hheld : (Receiver.start r others dettached sends).holders =
      heldBy others + (dettached : Multiset Nat) := by
    rw [holders, mine, hbufs, heldBy_cons, heldBy_nil]
    exact add_zero _
  refine ⟨⟨⟨hheld ▸ h, ?_, Nat.zero_lt_succ _, ?_, ?_, List.Pairwise.nil, ?_⟩, rfl⟩, fun hr => by cases hr⟩
  · intro id hid
    cases hid
  · intro f hf
    cases hf
  · intro f hf
    cases hf
  · intro b hb id hid
    rw [hbufs] at hb
    cases List.mem_singleton.mp hb
    cases hid

theorem ReceiverInv.separate {C : PoolContract P} {lim : Nat} {s : Receiver σ} (i : ReceiverInv C lim s) {j k : Nat}
    {f g : Frame} (hf : s.frames[j]? = some f) (hg : s.frames[k]? = some g) (hjk : j ≠ k)
    (hfl : f.live = true) (hgl : g.live = true) (he : f.mem = g.mem) :
    f.off + f.len ≤ g.off ∨ g.off + g.len ≤ f.off := by
  obtain ⟨hj, hfe⟩ := List.getElem?_eq_some_iff.mp hf
  obtain ⟨hk, hge⟩ := List.getElem?_eq_some_iff.mp hg
  have order := List.pairwise_iff_getElem.mp i.apart
  subst hfe hge
  rcases Nat.lt_or_gt_of_ne hjk with h | h
  · exact Or.inl (order j k hj hk h hfl hgl he)
  · exact Or.inr (order k j hk hj h hgl hfl he.symm)

theorem memPool_units32 {units : List Nat} (h : ∀ u ∈ units, u < 4294967296) (born : Nat → Option Nat) :
    (memPool_contract units born).Units32 := by
  intro r H size hi hsize
  obtain ⟨id, m, hb, _, _, hfor, _⟩ := MemPool.Inv.get_spec hi size
  change (MemPool.get r size).1.len < _
  rw [hb]
  change m.unit < 4294967296
  unfold MemPool.UnitFor at hfor
  split at hfor
  next => exact h _ hfor.1
  next => omega

theorem SessionTCP.sound_defaults (rbs : Nat) : (SessionTCP.defaults rbs).Sound := by
  intro n hn
  have := SessionTCP.valid_defaults.mp hn
  omega

end Ven
