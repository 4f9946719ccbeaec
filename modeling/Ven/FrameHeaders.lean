import Ven.ReceiveGrowth

namespace Ven

variable {σ : Type} {P : IMemPool σ} {C : PoolContract P} {V : ISessionTCP}

open Receiver SessionTCP

/-- The positions of a stream at which the receive loop looks for a frame. -/
inductive FrameStart (V : ISessionTCP) : List UInt8 → Nat → Prop
  | first {w} : FrameStart V w 0
  | later {w n q} (h : announced V w = some n) (hn : n ≤ w.length) (rest : FrameStart V (w.drop n) q) :
      FrameStart V w (n + q)

/-- No frame is announced to be shorter than its header. -/
def NoShortFrame (V : ISessionTCP) (w : List UInt8) : Prop :=
  ∀ q n, FrameStart V w q → V.getPacketSize (w.drop q) = some n → ¬(0 < n ∧ n < headerSize)

theorem NoShortFrame.drop {w : List UInt8} {n : Nat} (h : NoShortFrame V w) (ha : announced V w = some n)
    (hn : n ≤ w.length) : NoShortFrame V (w.drop n) := by
  intro q k hq hk
  rw [List.drop_drop] at hk
  exact h (n + q) k (.later ha hn hq) hk

/-- The loop looks for no frame behind one that is not complete. -/
theorem FrameStart.stuck {w : List UInt8} {q : Nat} (hq : FrameStart V w q)
    (h : ∀ n, announced V w = some n → w.length < n) : q = 0 := by
  cases hq with
  | first => rfl
  | later ha hn => exact absurd hn (Nat.not_le_of_lt (h _ ha))

theorem Framed.bad_refused {w : List UInt8} {p : Parse} (hp : Framed V w p) (h : p.bad = true) :
    ∃ n, V.getPacketSize p.rest = some n ∧ ¬V.isValidPacketSize n = true := by
  induction hp with
  | short => cases h
  | refused hg hv => exact ⟨_, hg, hv⟩
  | partly => cases h
  | frame _ _ _ _ ih => exact ih h

theorem Receiver.lastTurn_refused {t : Receiver σ} {n : Nat} (hn : V.getPacketSize t.window = some n)
    (hv : ¬V.isValidPacketSize n = true) :
    (t.lastTurn V P).isConnected = false ∧ (t.lastTurn V P).isReceiving = false := by
  unfold lastTurn
  rw [hn]
  simp only [hv, Bool.false_eq_true, if_false]
  unfold Receiver.disconnect
  split
  next => exact ⟨rfl, rfl⟩
  next hc => exact ⟨by simpa using hc, rfl⟩

/-- One connection: since `past` the frames found in `bytes` have been delivered, and a refused size has ended it. -/
structure Delivers (C : PoolContract P) (past : List (List UInt8)) (bytes : List UInt8) (s : Receiver σ) : Prop where
  inv : SessionInv C s
  frames : s.frames.map Frame.data = past ++ (refParse bytes).frames
  window : s.window = (refParse bytes).rest
  bad : (refParse bytes).bad = true → s.isConnected = false ∧ s.isReceiving = false

theorem Delivers.step (hu : C.Units32) {rbs : Nat} (hsize : rbs < 4294967296) {past : List (List UInt8)}
    {bytes : List UInt8} {s s' : Receiver σ} {op : RecvOp} (d : Delivers C past bytes s) (hop : op.within = true)
    (hs : s.step (defaults rbs) P op = some s') : Delivers C past (bytes ++ op.brings) s' := by
  have hv := sound_defaults rbs
  have hi := d.inv.step hu hv hsize hs
  cases d.inv.moves hu hv hsize hs with
  | still _ _ hwindow hdata hrecv hconn _ _ hidle =>
    rw [hidle, List.append_nil]
    refine ⟨hi, hdata.trans d.frames, hwindow.trans d.window, fun hb => ?_⟩
    obtain ⟨hc, hr⟩ := d.bad hb
    refine ⟨?_, ?_⟩
    · cases h : s'.isConnected with
      | false => rfl
      | true => exact absurd (hc.symm.trans (hconn h)) Bool.false_ne_true
    · cases h : s'.isReceiving with
      | false => rfl
      | true => exact absurd (hr.symm.trans (hrecv h)) Bool.false_ne_true
  | opened => cases hop
  | closed => cases hop
  | @turned data calls _ t hne hr _ hlast hends _ =>
    have hgood : (refParse bytes).bad = false := by
      by_contra hb
      have hoff := (d.bad (by simpa using hb)).2
      rw [hr] at hoff
      cases hoff
    obtain ⟨p, hframed, hrest, hwindow, hdata⟩ := d.inv.finds hu hv hne hs hlast
    rw [d.window] at hframed
    have hp := (framed_refParse rbs _).det hframed
    have hall : refParse (bytes ++ data) = { p with frames := (refParse bytes).frames ++ p.frames } := by
      rw [refParse_append hgood, hp]
    have hbrings : RecvOp.brings (.complete 0 data calls) = data := rfl
    rw [hbrings]
    refine ⟨hi, ?_, ?_, fun hb => ?_⟩
    · rw [hdata, d.frames, hall, List.append_assoc]
    · rw [hwindow, hall]
    · rw [hall] at hb
      obtain ⟨n, hn, hbadn⟩ := hframed.bad_refused hb
      rw [← hrest] at hn
      rw [hends]
      exact lastTurn_refused hn hbadn

theorem Delivers.run (hu : C.Units32) {rbs : Nat} (hsize : rbs < 4294967296) {past : List (List UInt8)}
    {bytes : List UInt8} {s s' : Receiver σ} {ops : List RecvOp} (d : Delivers C past bytes s)
    (hops : ∀ op ∈ ops, op.within = true) (run : Machine.exec (Receiver.step (defaults rbs) P) s ops = some s') :
    Delivers C past (bytes ++ ops.flatMap RecvOp.brings) s' := by
  induction ops generalizing s bytes with
  | nil =>
    cases Option.some.inj run
    rwa [List.flatMap_nil, List.append_nil]
  | cons op ops ih =>
    obtain ⟨mid, hm, hrest⟩ := Option.bind_eq_some_iff.mp run
    have hmid := d.step hu hsize (hops op List.mem_cons_self) hm
    have hend := ih hmid (fun o ho => hops o (List.mem_cons_of_mem _ ho)) hrest
    rwa [List.flatMap_cons, ← List.append_assoc]

end Ven
