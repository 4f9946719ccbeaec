import Ven.Receiver
import Ven.RBufSpec
import Mathlib.Tactic.Abel

namespace Ven

variable {σ : Type} {P : IMemPool σ}

/-- A frame that is still held: its bytes are those that were delivered, nobody else can write to
its block, and it lies below `lim` if the block is still being received into. -/
structure FrameOk (s : Receiver σ) (lim : Nat) (f : Frame) : Prop where
  held : f.mem ∈ s.mine
  alone : f.mem ∉ s.othersHeld
  data : s.ram.heap.load f.mem f.off f.len = f.data
  below : s.rbuf.buf.mem = some f.mem → f.off + f.len ≤ lim

structure ReceiverInv (C : PoolContract P) (lim : Nat) (s : Receiver σ) : Prop where
  pool : C.Inv s.ram s.holders
  block : ∀ id, s.rbuf.buf.mem = some id → id ∉ s.othersHeld ∧ lim ≤ s.rbuf.tail ∧ ∃ m, s.rbuf.Ok s.ram id m
  default : s.rbuf.defaultSize < 4294967296
  frames : ∀ f ∈ s.frames, f.live = true → FrameOk s lim f
  clean : ∀ f ∈ s.frames, f.written = false
  apart : s.frames.Pairwise fun f g => f.live = true → g.live = true → f.mem = g.mem → f.off + f.len ≤ g.off
  owned : ∀ b ∈ s.userBufs, ∀ id, b.mem = some id →
    ∃ f ∈ s.frames, f.live = true ∧ b = ⟨some f.mem, f.off, f.len⟩

/-- What goes on beside the receive loop leaves the receive buffer and the record of the
deliveries alone. -/
structure Beside (s s' : Receiver σ) : Prop where
  rbuf : s'.rbuf = s.rbuf
  block : ∀ id, s.rbuf.buf.mem = some id → SameBlock s.ram.heap s'.ram.heap id
  receiving : s'.isReceiving = s.isReceiving
  data : s'.frames.map Frame.data = s.frames.map Frame.data

theorem Beside.trans {s s' s'' : Receiver σ} (a : Beside s s') (b : Beside s' s'') : Beside s s'' where
  rbuf := b.rbuf.trans a.rbuf
  block := fun id hid => (a.block id hid).trans (b.block id (by rw [a.rbuf]; exact hid))
  receiving := b.receiving.trans a.receiving
  data := b.data.trans a.data

theorem Beside.window {s s' : Receiver σ} (a : Beside s s') : s'.window = s.window := by
  unfold Receiver.window Ram.loadAt
  rw [a.rbuf]
  cases hm : s.rbuf.buf.mem with
  | none => rfl
  | some id => exact (a.block id hm).load _ _

namespace Receiver

theorem expire_data (s : Receiver σ) : s.expire.frames.map Frame.data = s.frames.map Frame.data := by
  simp [expire, Function.comp_def]

theorem mem_expire {s : Receiver σ} {f : Frame} (h : f ∈ s.expire.frames) :
    ∃ g ∈ s.frames, f = { g with live := g.live && decide (g.mem ∈ s.holders) } := by
  obtain ⟨g, hg, he⟩ := List.mem_map.mp h
  exact ⟨g, hg, he.symm⟩

theorem expire_eq {s : Receiver σ} (h : ∀ f ∈ s.frames, f.live = true → f.mem ∈ s.holders) :
    s.expire = s := by
  have hf : s.expire.frames = s.frames := by
    change s.frames.map _ = s.frames
    refine (List.map_congr_left fun f hf => ?_).trans (List.map_id s.frames)
    have := h f hf
    cases hl : f.live with
    | false => cases f; simp_all
    | true => cases f; simp_all
  change { s with frames := s.expire.frames } = s
  rw [hf]

theorem mark_eq {s : Receiver σ} {wrote : List Span}
    (h : ∀ f ∈ s.frames, f.live = true → ∀ w ∈ wrote, w.touches s.ram.heap f = false) :
    s.mark wrote = s := by
  have hf : (s.mark wrote).frames = s.frames := by
    change s.frames.map _ = s.frames
    refine (List.map_congr_left fun f hf => ?_).trans (List.map_id s.frames)
    have hany : (f.live && wrote.any fun w => w.touches s.ram.heap f) = false := by
      cases hl : f.live with
      | false => rfl
      | true =>
        rw [Bool.true_and, List.any_eq_false]
        intro w hw
        simp [h f hf hl w hw]
    rw [hany, Bool.or_false]
    rfl
  change { s with frames := (s.mark wrote).frames } = s
  rw [hf]

theorem touches_other {h : Heap} {w : Span} {f : Frame} {m : Mem} (hm : h w.mem = some m)
    (fits : w.pos + w.len ≤ m.unit)
    (apart : w.mem = f.mem → f.off + f.len ≤ w.pos ∨ w.pos + w.len ≤ f.off) :
    w.touches h f = false := by
  have hno : ¬(w.mem = f.mem ∧ w.pos < f.off + f.len ∧ f.off < w.pos + w.len) := by
    rintro ⟨he, ha, hb⟩
    have := apart he
    omega
  simp [Span.touches, hm, hno, fits]

theorem mem_holders {s : Receiver σ} {k : Nat} (h : k ∈ s.mine) : k ∈ s.holders :=
  Multiset.mem_add.mpr (Or.inr h)

theorem rbuf_mine {s : Receiver σ} {id : Nat} (h : s.rbuf.buf.mem = some id) : id ∈ s.mine := by
  simp [mine, Buf.held, h]

/-- The blocks of everybody but the receive buffer. -/
def rest (s : Receiver σ) : Multiset Nat := s.othersHeld + heldBy s.userBufs

theorem holders_eq (s : Receiver σ) : s.holders = s.rbuf.buf.held + s.rest := by
  rw [holders, mine, rest]
  abel

theorem mine_of_rest {s : Receiver σ} {k : Nat} (h : k ∉ s.othersHeld) (hk : k ∈ s.rest) : k ∈ s.mine :=
  Multiset.mem_add.mpr (Or.inr ((Multiset.mem_add.mp hk).resolve_left h))

theorem user_mine {s : Receiver σ} {b : Buf} {id : Nat} (hb : b ∈ s.userBufs) (h : b.mem = some id) :
    id ∈ s.mine :=
  Multiset.mem_add.mpr (Or.inr (mem_heldBy hb h))

end Receiver

open Receiver

variable {C : PoolContract P} {lim : Nat}

/-- After any change that makes no new `Buf` but copies, the invariant needs to be shown only of
the frames that are still held. -/
theorem ReceiverInv.expired {s s' : Receiver σ} {lim' : Nat} (i : ReceiverInv C lim s)
    (hf : s'.frames = s.frames) (pool : C.Inv s'.ram s'.holders)
    (block : ∀ id, s'.rbuf.buf.mem = some id →
      id ∉ s'.othersHeld ∧ lim' ≤ s'.rbuf.tail ∧ ∃ m, s'.rbuf.Ok s'.ram id m)
    (default : s'.rbuf.defaultSize < 4294967296)
    (keeps : ∀ f ∈ s.frames, f.live = true → f.mem ∈ s'.holders → FrameOk s' lim' f)
    (owned : ∀ b ∈ s'.userBufs, b.mem ≠ none → b ∈ s.userBufs) : ReceiverInv C lim' s'.expire := by
  refine ⟨pool, block, default, ?_, ?_, ?_, ?_⟩
  · intro f hf' hl
    obtain ⟨g, hg, he⟩ := mem_expire hf'
    subst he
    obtain ⟨hgl, hmem⟩ := Bool.and_eq_true_iff.mp hl
    have ok := keeps g (hf ▸ hg) hgl (of_decide_eq_true hmem)
    exact ⟨ok.held, ok.alone, ok.data, ok.below⟩
  · intro f hf'
    obtain ⟨g, hg, he⟩ := mem_expire hf'
    subst he
    exact i.clean g (hf ▸ hg)
  · change (s'.frames.map _).Pairwise _
    rw [hf, List.pairwise_map]
    apply i.apart.imp
    intro f g h hfl hgl
    exact h (Bool.and_eq_true_iff.mp hfl).1 (Bool.and_eq_true_iff.mp hgl).1
  · intro b hb id hid
    obtain ⟨f, hfm, hfl, he⟩ := i.owned b (owned b hb (by simp [hid])) id hid
    have hmem : f.mem ∈ s'.holders := by
      have : f.mem = id := by
        rw [he] at hid
        exact Option.some.inj hid
      exact mem_holders (this ▸ user_mine hb hid)
    refine ⟨f, ?_, hfl, he⟩
    refine List.mem_map.mpr ⟨f, hf ▸ hfm, ?_⟩
    have hd : decide (f.mem ∈ s'.holders) = true := decide_eq_true hmem
    simp [hd]

/-- A change of the variables that keeps the pool's contract, hands nothing of ours to others and
makes no new `Buf` but copies keeps the invariant. -/
theorem ReceiverInv.settle {s s' : Receiver σ} (i : ReceiverInv C lim s) (hr : s'.rbuf = s.rbuf)
    (hf : s'.frames = s.frames) (pool : C.Inv s'.ram s'.holders)
    (same : ∀ k ∈ s.mine, k ∈ s'.mine → SameBlock s.ram.heap s'.ram.heap k)
    (others : ∀ k ∈ s.mine, k ∉ s.othersHeld → k ∉ s'.othersHeld)
    (owned : ∀ b ∈ s'.userBufs, b.mem ≠ none → b ∈ s.userBufs) : ReceiverInv C lim s'.expire := by
  refine i.expired hf pool ?_ (by rw [hr]; exact i.default) ?_ owned
  · intro id hid
    have hid' : s.rbuf.buf.mem = some id := by rw [← hr]; exact hid
    obtain ⟨hno, hlim, m, ok⟩ := i.block id hid'
    obtain ⟨m', ok', _, _⟩ := ok.of_same (same id (rbuf_mine hid') (rbuf_mine hid))
    rw [hr]
    exact ⟨others id (rbuf_mine hid') hno, hlim, m', ok'⟩
  · intro f hfm hl hmem
    have ok := i.frames f hfm hl
    have hno := others f.mem ok.held ok.alone
    have hin : f.mem ∈ s'.mine := (Multiset.mem_add.mp hmem).resolve_left hno
    exact ⟨hin, hno, ((same f.mem ok.held hin).load _ _).trans ok.data,
      fun hb => ok.below (by rw [← hr]; exact hb)⟩

/-- The same where nothing is released. -/
theorem ReceiverInv.settle_all {s s' : Receiver σ} (i : ReceiverInv C lim s) (hr : s'.rbuf = s.rbuf)
    (hf : s'.frames = s.frames) (pool : C.Inv s'.ram s'.holders)
    (same : ∀ k ∈ s.mine, k ∈ s'.mine ∧ SameBlock s.ram.heap s'.ram.heap k)
    (others : ∀ k ∈ s.mine, k ∉ s.othersHeld → k ∉ s'.othersHeld)
    (owned : ∀ b ∈ s'.userBufs, b.mem ≠ none → b ∈ s.userBufs) : ReceiverInv C lim s' := by
  have h := i.settle hr hf pool (fun k hk _ => (same k hk).2) others owned
  rwa [expire_eq] at h
  intro f hf' hl
  exact mem_holders (same f.mem (i.frames f (hf ▸ hf') hl).held).1

/-- The flags of the session play no part in the invariant. -/
theorem ReceiverInv.flags {s : Receiver σ} (i : ReceiverInv C lim s) (connected receiving : Bool) (err : Nat) :
    ReceiverInv C lim { s with isConnected := connected, isReceiving := receiving, dovErr := err } := by
  refine ⟨i.pool, i.block, i.default, fun f hf hl => ?_, i.clean, i.apart, i.owned⟩
  have ok := i.frames f hf hl
  exact ⟨ok.held, ok.alone, ok.data, ok.below⟩

theorem ReceiverInv.disconnect {s : Receiver σ} (i : ReceiverInv C lim s) (err : Nat) :
    ReceiverInv C lim (s.disconnect err) := by
  unfold Receiver.disconnect
  split
  next => exact i.flags false s.isReceiving err
  next => exact i

end Ven
