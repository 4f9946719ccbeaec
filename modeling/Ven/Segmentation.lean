import Ven.ZeroCopy

namespace Ven

variable {σ : Type} {P : IMemPool σ}

open Receiver SessionTCP

/-- Receive completions that bring data, and anything a user may do but disconnect. -/
def RecvOp.Undisturbed : RecvOp → Prop
  | .complete err data calls => err = 0 ∧ data ≠ [] ∧ ∀ ops ∈ calls, .disconnect ∉ ops
  | .user op => op ≠ .disconnect
  | _ => False

/-- The bytes that have arrived, in order. -/
def received (ops : List RecvOp) : List UInt8 :=
  ops.flatMap fun
    | .complete _ data _ => data
    | _ => []

/-- The session has delivered exactly the frames of the bytes that arrived, holds the rest, and
goes on receiving unless a size was refused. -/
structure Tracks (C : PoolContract P) (bytes : List UInt8) (s : Receiver σ) : Prop where
  inv : SessionInv C s
  frames : s.frames.map Frame.data = (refParse bytes).frames
  window : s.window = (refParse bytes).rest
  bad : (refParse bytes).bad = true → s.isConnected = false ∧ s.isReceiving = false ∧ s.dovErr = 16000
  good : (refParse bytes).bad = false → s.isConnected = true ∧ s.isReceiving = true

theorem refParse_append {w more : List UInt8} (h : (refParse w).bad = false) :
    refParse (w ++ more) = { refParse ((refParse w).rest ++ more) with
      frames := (refParse w).frames ++ (refParse ((refParse w).rest ++ more)).frames } := by
  have joined := (framed_refParse 0 w).append (fun _ _ _ hg => getPacketSize_append hg) h
    (framed_refParse 0 ((refParse w).rest ++ more))
  exact (framed_refParse 0 (w ++ more)).det joined

theorem Tracks.step {C : PoolContract P} (hu : C.Units32) {rbs : Nat} {bytes : List UInt8}
    {s s' : Receiver σ} {op : RecvOp} (t : Tracks C bytes s) (hop : op.Undisturbed)
    (hs : s.step (defaults rbs) P op = some s') : Tracks C (bytes ++ received [op]) s' := by
  cases op with
  | conn => cases hop
  | disc => cases hop
  | user op =>
    cases Option.some.inj hs
    obtain ⟨hi, hb⟩ := t.inv.user op
    obtain ⟨hc, he⟩ := user_connected (P := P) (s := s) hop
    have hnil : bytes ++ received [.user op] = bytes := List.append_nil bytes
    rw [hnil]
    refine ⟨hi, hb.data.trans t.frames, hb.window.trans t.window, fun h => ?_, fun h => ?_⟩
    · rw [hc, he, hb.receiving]
      exact t.bad h
    · rw [hc, hb.receiving]
      exact t.good h
  | complete err data calls =>
    obtain ⟨herr, hne, hquiet⟩ := hop
    subst herr
    have hdata : received [.complete 0 data calls] = data := List.append_nil data
    rw [hdata]
    have hguard : s.isReceiving = true ∧ data.length ≤ s.rbuf.remainLen s.ram := by
      simp only [Receiver.step] at hs
      split at hs
      next => cases hs
      next hg =>
        obtain ⟨hr, hfit⟩ := not_or.mp hg
        exact ⟨not_not.mp hr, by omega⟩
    -- a refused size would have stopped the receiving
    have hgood : (refParse bytes).bad = false := by
      by_contra hb
      obtain ⟨_, hr, _⟩ := t.bad (by simpa using hb)
      rw [hguard.1] at hr
      cases hr
    obtain ⟨s'', p, hrun, hframed, hi, hrec⟩ :=
      t.inv.complete hu (sound_defaults rbs) hguard.1 hguard.2 hne calls
    cases Option.some.inj (hs.symm.trans hrun)
    rw [t.window] at hframed
    have hp := (framed_refParse rbs _).det hframed
    have hall : refParse (bytes ++ data) = { p with frames := (refParse bytes).frames ++ p.frames } := by
      rw [refParse_append hgood, hp]
    have hq := hrec.quiet hquiet (t.good hgood).1
    refine ⟨hi, ?_, ?_, fun h => ?_, fun h => ?_⟩
    · rw [hrec.data, t.frames, hall]
    · rw [hrec.window, hall]
    · rw [hall] at h
      rwa [if_pos h] at hq
    · rw [hall] at h
      change p.bad = false at h
      rw [if_neg (by simp [h])] at hq
      exact ⟨hq.1, hq.2.1⟩

theorem Tracks.run {C : PoolContract P} (hu : C.Units32) {rbs : Nat} {ops : List RecvOp}
    {bytes : List UInt8} {s s' : Receiver σ} (t : Tracks C bytes s) (hops : ∀ op ∈ ops, op.Undisturbed)
    (run : Machine.exec (Receiver.step (defaults rbs) P) s ops = some s') :
    Tracks C (bytes ++ received ops) s' := by
  induction ops generalizing s bytes with
  | nil =>
    cases Option.some.inj run
    rwa [show received [] = [] from rfl, List.append_nil]
  | cons op ops ih =>
    obtain ⟨mid, hm, hrest⟩ := Option.bind_eq_some_iff.mp run
    have ht := t.step hu (hops op List.mem_cons_self) hm
    have h := ih ht (fun o ho => hops o (List.mem_cons_of_mem _ ho)) hrest
    have hcons : received (op :: ops) = received [op] ++ received ops := by
      simp [received]
    rwa [hcons, ← List.append_assoc]

end Ven
