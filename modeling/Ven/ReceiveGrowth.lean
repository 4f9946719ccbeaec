import Ven.ReceiveWindow
import Ven.Segmentation

namespace Ven

variable {σ : Type} {P : IMemPool σ} {C : PoolContract P} {V : ISessionTCP}

/-- A pool whose blocks come in size classes: `f size` is `unit_` of the block for a request of `size`. -/
structure PoolContract.Classes (C : PoolContract P) (f : Nat → Nat) : Prop where
  len : ∀ {r : Ram σ} {H : Multiset Nat} (size : Nat), C.Inv r H → (P.get r size).1.len = f size
  mono : ∀ {a b : Nat}, a ≤ b → f a ≤ f b
  idem : ∀ a, f (f a) = f a
  le : ∀ a, a ≤ f a

open Receiver

namespace MemPool

theorem UnitFor.unique {units : List Nat} {size u v : Nat} (hu : UnitFor units size u)
    (hv : UnitFor units size v) : u = v := by
  unfold UnitFor at hu hv
  split at hu
  next h =>
    rw [if_pos h] at hv
    exact Nat.le_antisymm (hu.2.2 v hv.1 hv.2.1) (hv.2.2 u hu.1 hu.2.1)
  next h =>
    rw [if_neg h] at hv
    exact hu.trans hv.symm

theorem UnitFor.mono {units : List Nat} {a b u v : Nat} (hab : a ≤ b) (hu : UnitFor units a u)
    (hv : UnitFor units b v) : u ≤ v := by
  unfold UnitFor at hv
  split at hv
  next hb =>
    rw [UnitFor, if_pos ⟨v, hv.1, hab.trans hv.2.1⟩] at hu
    exact hu.2.2 v hv.1 (hab.trans hv.2.1)
  next hb =>
    unfold UnitFor at hu
    split at hu
    next =>
      by_contra hlt
      exact hb ⟨u, hu.1, by omega⟩
    next => omega

theorem UnitFor.idem {units : List Nat} {size u : Nat} (hu : UnitFor units size u) : UnitFor units u u := by
  have hall := hu
  unfold UnitFor at hu
  split at hu
  next =>
    rw [UnitFor, if_pos ⟨u, hu.1, Nat.le_refl _⟩]
    exact ⟨hu.1, Nat.le_refl _, fun _ _ h => h⟩
  next => rwa [hu] at hall ⊢

end MemPool

theorem RBuf.checkSize_unit {f : Nat → Nat} (hf : C.Classes f) (hu : C.Units32) {b : RBuf} {r : Ram σ}
    {K : Multiset Nat} {id packetSize : Nat} {m : Mem} (ok : b.Ok r id m) (h : C.Inv r (b.buf.held + K))
    (hlen : b.dataLen ≤ packetSize) (hsize : packetSize * 2 < 4294967296) :
    (checkSize P r b packetSize).2.1.unitAt (checkSize P r b packetSize).1.buf =
      if r.unitAt b.buf < packetSize then f (packetSize * 2) else r.unitAt b.buf := by
  unfold checkSize
  split
  next =>
    have hmul : u32 ((packetSize : Int) * 2) = packetSize * 2 := by
      have := u32_of_lt hsize
      rwa [Int.natCast_mul] at this
    rw [hmul]
    exact (change_room C hu ok h (by omega) hsize).1.trans (hf.len _ h)
  next => rfl

/-- `check_arrange` shrinks the block, exchanges it for one of the same class, or leaves it. -/
theorem RBuf.checkArrange_unit {f : Nat → Nat} (hf : C.Classes f) (hu : C.Units32) {b : RBuf} {r : Ram σ}
    {K : Multiset Nat} {id : Nat} {m : Mem} (ok : b.Ok r id m) (h : C.Inv r (b.buf.held + K))
    (hdef : b.defaultSize < 4294967296) :
    (checkArrange P r b).2.1.unitAt (checkArrange P r b).1.buf =
      if b.defaultSize < r.unitAt b.buf ∧ b.dataLen < b.defaultSize then f b.defaultSize
      else if b.remainLen r ≤ b.remainingSizeToExchange then f (r.unitAt b.buf) else r.unitAt b.buf := by
  unfold checkArrange
  split
  next hshrink =>
    exact (change_room C hu ok h (Nat.le_of_lt hshrink.2) hdef).1.trans (hf.len _ h)
  next =>
    split
    next =>
      have hlt : r.unitAt b.buf < 4294967296 := by
        rw [ok.unitAt]
        exact ok.unit
      have hlen : b.dataLen ≤ r.unitAt b.buf := by
        rw [ok.unitAt, ok.dataLen_eq]
        have htail := ok.tail
        omega
      exact (change_room C hu ok h hlen hlt).1.trans (hf.len _ h)
    next => rfl

/-- The block is of one of the pool's classes, and not of a smaller one than the session asks for. -/
structure Sized (f : Nat → Nat) (V : ISessionTCP) (s : Receiver σ) : Prop where
  default : s.rbuf.defaultSize = V.receiveBufferSize
  fixed : f (s.ram.unitAt s.rbuf.buf) = s.ram.unitAt s.rbuf.buf
  least : f V.receiveBufferSize ≤ s.ram.unitAt s.rbuf.buf

/-- The call replaces the block by a larger one. -/
def enlarging (x : Receiver σ × RBuf × Ram σ × List Span) : Bool :=
  decide (x.1.ram.unitAt x.1.rbuf.buf < x.2.2.1.unitAt x.2.1.buf)

/-- The end of `_on_recv` leaves a block of one of the classes, and enlarges nothing. -/
theorem Resting.finish_sized {f : Nat → Nat} (hf : C.Classes f) (hu : C.Units32) {s : Receiver σ}
    (i : Resting C s) {id : Nat} (hm : s.rbuf.buf.mem = some id) (h : Sized f V s) :
    Sized f V (s.finish P) ∧ enlarging (s, s.rbuf.checkArrange P s.ram) = false ∧
      (s.finish P).ram.unitAt (s.finish P).rbuf.buf =
        if V.receiveBufferSize < s.ram.unitAt s.rbuf.buf ∧ s.rbuf.dataLen < V.receiveBufferSize then
          f V.receiveBufferSize
        else s.ram.unitAt s.rbuf.buf := by
  obtain ⟨_, _, m, ok⟩ := i.inv.block id hm
  have hpool : C.Inv s.ram (s.rbuf.buf.held + s.rest) := by
    rw [← holders_eq]
    exact i.inv.pool
  have ha := RBuf.checkArrange_spec C hu ok hpool i.inv.default
  have hunit := RBuf.checkArrange_unit hf hu ok hpool i.inv.default
  rw [h.default, h.fixed, ite_self] at hunit
  obtain ⟨hrbuf, hram⟩ := finish_leaves (P := P) s
  have hdef : (s.finish P).rbuf.defaultSize = V.receiveBufferSize := by
    rw [hrbuf, ha.default, h.default]
  have hend : (s.finish P).ram.unitAt (s.finish P).rbuf.buf =
      if V.receiveBufferSize < s.ram.unitAt s.rbuf.buf ∧ s.rbuf.dataLen < V.receiveBufferSize then
        f V.receiveBufferSize
      else s.ram.unitAt s.rbuf.buf := by
    rw [hrbuf, hram]
    exact hunit
  have hle := h.least
  refine ⟨⟨hdef, ?_, ?_⟩, ?_, hend⟩
  · rw [hend]
    split
    next => exact hf.idem _
    next => exact h.fixed
  · rw [hend]
    split
    next => exact Nat.le_refl _
    next => exact hle
  · unfold enlarging
    dsimp only
    rw [hunit]
    apply decide_eq_false
    split
    next => omega
    next => omega

/-- `check_size` leaves a block of one of the classes, and enlarges it where the packet does not fit. -/
theorem Resting.checkSize_sized {f : Nat → Nat} (hf : C.Classes f) (hu : C.Units32) {s : Receiver σ}
    (i : Resting C s) {id psize : Nat} (hm : s.rbuf.buf.mem = some id) (h : Sized f V s)
    (hpart : s.rbuf.dataLen < psize) (hdouble : psize * 2 < 4294967296) :
    Resting C (s.checkSize P psize) ∧ (∃ id', (s.checkSize P psize).rbuf.buf.mem = some id') ∧
      (s.checkSize P psize).rbuf.dataLen = s.rbuf.dataLen ∧ Sized f V (s.checkSize P psize) ∧
      psize ≤ (s.checkSize P psize).ram.unitAt (s.checkSize P psize).rbuf.buf ∧
      (psize ≤ s.ram.unitAt s.rbuf.buf →
        (s.checkSize P psize).ram.unitAt (s.checkSize P psize).rbuf.buf = s.ram.unitAt s.rbuf.buf ∧
          enlarging (s, s.rbuf.checkSize P s.ram psize) = false) := by
  obtain ⟨_, _, m, ok⟩ := i.inv.block id hm
  have hpool : C.Inv s.ram (s.rbuf.buf.held + s.rest) := by
    rw [← holders_eq]
    exact i.inv.pool
  have ha := RBuf.checkSize_spec C hu ok hpool (Nat.le_of_lt hpart) hdouble
  obtain ⟨hi, hmem, hlen, _⟩ := i.rearrange ha
  have hunit := RBuf.checkSize_unit hf hu ok hpool (Nat.le_of_lt hpart) hdouble
  obtain ⟨hfit, hgrown⟩ := RBuf.checkSize_room C hu ok hpool (Nat.le_of_lt hpart) hdouble
  have hle := h.least
  refine ⟨hi, hmem, hlen, ⟨ha.default.trans h.default, ?_, hle.trans hgrown⟩, hfit, fun hfits => ?_⟩
  · change f ((s.rbuf.checkSize P s.ram psize).2.1.unitAt (s.rbuf.checkSize P s.ram psize).1.buf) =
      (s.rbuf.checkSize P s.ram psize).2.1.unitAt (s.rbuf.checkSize P s.ram psize).1.buf
    rw [hunit]
    split
    next => exact hf.idem _
    next => exact h.fixed
  · rw [if_neg (Nat.not_lt_of_le hfits)] at hunit
    refine ⟨hunit, ?_⟩
    unfold enlarging
    dsimp only
    rw [hunit]
    exact decide_eq_false (Nat.lt_irrefl _)

/-- The size that the bytes `w` announce, where it is valid. -/
def announced (V : ISessionTCP) (w : List UInt8) : Option Nat := (V.getPacketSize w).filter V.isValidPacketSize

theorem announced_some {w : List UInt8} {psize : Nat} : announced V w = some psize ↔
    V.getPacketSize w = some psize ∧ V.isValidPacketSize psize = true := by
  unfold announced
  rw [Option.filter_eq_some_iff]

/-- The last turn of the loop: the block holds the announced packet exactly where `check_arrange` does not
shrink it, and it is enlarged only where the packet did not fit. -/
theorem Receiver.LastAt.sized {f : Nat → Nat} (hf : C.Classes f) (hu : C.Units32) (hv : V.Sound)
    {s t : Receiver σ} {w : List UInt8} (l : LastAt C V s w t) {id : Nat} (hm : s.rbuf.buf.mem = some id)
    (h : Sized f V s) :
    Sized f V (t.lastTurn V P) ∧
      (∀ psize, announced V t.window = some psize →
        (psize ≤ (t.lastTurn V P).ram.unitAt (t.lastTurn V P).rbuf.buf ↔
          V.receiveBufferSize ≤ t.window.length ∨ psize ≤ f V.receiveBufferSize) ∧
        (psize ≤ s.ram.unitAt s.rbuf.buf → V.receiveBufferSize ≤ t.window.length →
          (t.lastTurn V P).ram.unitAt (t.lastTurn V P).rbuf.buf = s.ram.unitAt s.rbuf.buf)) ∧
      ((t.lastArranges V P).any enlarging = true →
        ∃ psize, announced V t.window = some psize ∧ s.ram.unitAt s.rbuf.buf < psize) := by
  have hmt : t.rbuf.buf.mem = some id := by
    rw [l.buf]
    exact hm
  have ht : Sized f V t :=
    ⟨l.default.trans h.default, by rw [l.unit]; exact h.fixed, by rw [l.unit]; exact h.least⟩
  obtain ⟨_, _, m, ok⟩ := l.rest.inv.block id hmt
  have hwin := length_window ok
  unfold lastTurn lastArranges
  cases hg : V.getPacketSize t.window with
  | none =>
    obtain ⟨hs, hsame, _⟩ := l.rest.finish_sized hf hu hmt ht
    refine ⟨hs, fun psize hp => ?_, fun hany => ?_⟩
    · rw [announced_some, hg] at hp
      cases hp.1
    · simp only [List.any_cons, List.any_nil, hsame] at hany
      cases hany
  | some psize =>
    by_cases hval : V.isValidPacketSize psize = true
    · have hpart := l.part psize hg hval
      obtain ⟨_, hdouble⟩ := hv psize hval
      obtain ⟨hi, ⟨id', hm'⟩, hlen, hs, hfit, hsame⟩ := l.rest.checkSize_sized hf hu hmt ht hpart hdouble
      obtain ⟨hs', hsame', hend⟩ := hi.finish_sized hf hu hm' hs
      simp only [hval, if_true]
      refine ⟨hs', fun psize' hp => ?_, fun hany => ⟨psize, announced_some.mpr ⟨hg, hval⟩, ?_⟩⟩
      · cases Option.some.inj (hg.symm.trans (announced_some.mp hp).1)
        have hle := hf.le V.receiveBufferSize
        rw [hend, hlen, hwin]
        refine ⟨?_, fun hfits hfull => ?_⟩
        · split
          next => omega
          next => omega
        · rw [← l.unit] at hfits ⊢
          rw [if_neg (by omega), (hsame hfits).1]
      · by_contra hfits
        rw [← l.unit] at hfits
        simp only [List.any_cons, List.any_nil, (hsame (Nat.le_of_not_lt hfits)).2, hsame'] at hany
        cases hany
    · obtain ⟨hrbuf, hram, _⟩ := disconnect_leaves { t with isReceiving := false } 16000
      simp only [hval, Bool.false_eq_true, if_false]
      refine ⟨⟨?_, ?_, ?_⟩, fun psize' hp => ?_, fun hany => by cases hany⟩
      · rw [hrbuf]
        exact ht.default
      · rw [hrbuf, hram]
        exact ht.fixed
      · rw [hrbuf, hram]
        exact ht.least
      · obtain ⟨hp, hval'⟩ := announced_some.mp hp
        cases Option.some.inj (hg.symm.trans hp)
        exact absurd hval' hval

/-- What holds in every reachable state: a block, where there is one, is `Sized`. -/
structure Classed (C : PoolContract P) (f : Nat → Nat) (V : ISessionTCP) (s : Receiver σ) : Prop where
  inv : SessionInv C s
  sized : ∀ id, s.rbuf.buf.mem = some id → Sized f V s

theorem Classed.step {f : Nat → Nat} (hf : C.Classes f) (hu : C.Units32) (hv : V.Sound)
    (hsize : V.receiveBufferSize < 4294967296) {s s' : Receiver σ} {op : RecvOp} (h : Classed C f V s)
    (hs : s.step V P op = some s') : Classed C f V s' := by
  refine ⟨h.inv.step hu hv hsize hs, fun id hid => ?_⟩
  cases h.inv.moves hu hv hsize hs with
  | still hrbuf hunit =>
    rw [hrbuf] at hid
    have hold := h.sized id hid
    exact ⟨by rw [hrbuf]; exact hold.default, by rw [hrbuf, hunit]; exact hold.fixed,
      by rw [hrbuf, hunit]; exact hold.least⟩
  | opened hnone ok hdef hunit =>
    have hpool : C.Inv s.ram s.holders := h.inv.rest.inv.pool
    have hclass : s'.ram.unitAt s'.rbuf.buf = f V.receiveBufferSize := by
      rw [ok.unitAt, hunit]
      exact hf.len _ hpool
    exact ⟨hdef, by rw [hclass]; exact hf.idem _, Nat.le_of_eq hclass.symm⟩
  | closed hnone => exact absurd (hnone.symm.trans hid) (by simp)
  | turned _ _ hm hlast hends =>
    rw [hends]
    exact (hlast.sized (P := P) hf hu hv hm (h.sized _ hm)).1

/-- For each enlargement along a run, the number of the packet (from 0) it is made for. -/
def Receiver.enlarged (V : ISessionTCP) (P : IMemPool σ) : Receiver σ → List RecvOp → List Nat
  | _, [] => []
  | s, op :: ops =>
    match s.step V P op with
    | none => []
    | some s' =>
      (if (s.arranges V P op).any enlarging then [s'.frames.length] else []) ++ enlarged V P s' ops

/-- What a completion leaves of the bytes: a packet that will not be shrunk under, if any. -/
def GrowthSafe (f : Nat → Nat) (rbs : Nat) (s : Receiver σ) : RecvOp → Prop
  | .complete 0 data _ => ∀ psize, announced (SessionTCP.defaults rbs) (refParse (s.window ++ data)).rest = some psize →
    rbs ≤ (refParse (s.window ++ data)).rest.length ∨ psize ≤ f rbs
  | _ => True

/-- A completion that brings data, seen from the bytes: what is left of them, and how the block fares. -/
theorem Classed.completes {f : Nat → Nat} (hf : C.Classes f) (hu : C.Units32) {rbs : Nat} {s s' : Receiver σ}
    {data : List UInt8} {calls : List (List UserOp)} (h : Classed C f (SessionTCP.defaults rbs) s) (hne : data ≠ [])
    (hs : s.step (SessionTCP.defaults rbs) P (.complete 0 data calls) = some s') :
    s'.window = (refParse (s.window ++ data)).rest ∧
      s'.frames.length = s.frames.length + (refParse (s.window ++ data)).frames.length ∧
      (∀ psize, announced (SessionTCP.defaults rbs) s'.window = some psize →
        (psize ≤ s'.ram.unitAt s'.rbuf.buf ↔ rbs ≤ s'.window.length ∨ psize ≤ f rbs) ∧
        (psize ≤ s.ram.unitAt s.rbuf.buf → rbs ≤ s'.window.length →
          s'.ram.unitAt s'.rbuf.buf = s.ram.unitAt s.rbuf.buf)) ∧
      ((s.arranges (SessionTCP.defaults rbs) P (.complete 0 data calls)).any enlarging = true →
        ∃ psize, announced (SessionTCP.defaults rbs) s'.window = some psize ∧
          s.ram.unitAt s.rbuf.buf < psize) := by
  have hv := SessionTCP.sound_defaults rbs
  obtain ⟨_, _, id, t, hm, hlast, hends, harr⟩ := h.inv.turned hv hne hs
  obtain ⟨p, hframed, hrest, hwindow, hdata⟩ := h.inv.finds hu hv hne hs hlast
  cases (SessionTCP.framed_refParse rbs _).det hframed
  obtain ⟨_, hkeep, hgrow⟩ := hlast.sized (P := P) hf hu hv hm (h.sized id hm)
  rw [hrest, ← hwindow, ← hends] at hkeep
  rw [hrest, ← hwindow, ← harr] at hgrow
  exact ⟨hwindow, by simpa using congrArg List.length hdata, hkeep, hgrow⟩

/-- A run of one connection: every enlargement so far was made for an earlier packet, or for the one at the front
of the window, which has fitted into the block since. -/
structure Grown (C : PoolContract P) (f : Nat → Nat) (rbs : Nat) (s : Receiver σ) (past : List Nat) : Prop where
  classed : Classed C f (SessionTCP.defaults rbs) s
  distinct : past.Nodup
  le : ∀ k ∈ past, k ≤ s.frames.length
  kept : s.frames.length ∈ past → ∃ psize, announced (SessionTCP.defaults rbs) s.window = some psize ∧
    psize ≤ s.ram.unitAt s.rbuf.buf

theorem announced_append {rbs psize : Nat} {w : List UInt8}
    (h : announced (SessionTCP.defaults rbs) w = some psize) (more : List UInt8) :
    announced (SessionTCP.defaults rbs) (w ++ more) = some psize := by
  obtain ⟨hg, hval⟩ := announced_some.mp h
  exact announced_some.mpr ⟨SessionTCP.getPacketSize_append hg, hval⟩

theorem refParse_none {w : List UInt8} (h : (refParse w).frames = []) : (refParse w).rest = w := by
  cases hp : refParse w with
  | mk frames rest bad =>
    have hframed := SessionTCP.framed_refParse 0 w
    rw [hp] at h hframed
    cases hframed with
    | short => rfl
    | refused => rfl
    | partly => rfl
    | frame => cases h

theorem Grown.complete {f : Nat → Nat} (hf : C.Classes f) (hu : C.Units32) {rbs : Nat} (hsize : rbs < 4294967296)
    {s s' : Receiver σ} {past : List Nat} {data : List UInt8} {calls : List (List UserOp)}
    (g : Grown C f rbs s past) (hne : data ≠ [])
    (hs : s.step (SessionTCP.defaults rbs) P (.complete 0 data calls) = some s')
    (hsafe : GrowthSafe f rbs s (.complete 0 data calls)) :
    Grown C f rbs s' (past ++ if (s.arranges (SessionTCP.defaults rbs) P (.complete 0 data calls)).any enlarging then
      [s'.frames.length] else []) := by
  have hc := g.classed.step hf hu (SessionTCP.sound_defaults rbs) hsize hs
  obtain ⟨hwindow, hlen, hkeep, hgrow⟩ := g.classed.completes hf hu hne hs
  have hfits : ∀ psize, announced (SessionTCP.defaults rbs) s'.window = some psize →
      psize ≤ s'.ram.unitAt s'.rbuf.buf := by
    intro psize hp
    refine (hkeep psize hp).1.mpr ?_
    rw [hwindow] at hp ⊢
    exact hsafe psize hp
  have hle : ∀ k ∈ past, k ≤ s'.frames.length := by
    intro k hk
    have := g.le k hk
    omega
  by_cases hin : s'.frames.length ∈ past
  · have hsame : (refParse (s.window ++ data)).frames = [] := by
      have := g.le _ hin
      exact List.eq_nil_of_length_eq_zero (by omega)
    rw [hsame, List.length_nil, Nat.add_zero] at hlen
    obtain ⟨psize, hp, hfit⟩ := g.kept (hlen ▸ hin)
    have hp' : announced (SessionTCP.defaults rbs) s'.window = some psize := by
      rw [hwindow, refParse_none hsame]
      exact announced_append hp data
    have hnot : ¬(s.arranges (SessionTCP.defaults rbs) P (.complete 0 data calls)).any enlarging = true := by
      intro hany
      obtain ⟨psize', hp'', hlt⟩ := hgrow hany
      cases Option.some.inj (hp'.symm.trans hp'')
      omega
    rw [if_neg hnot, List.append_nil]
    exact ⟨hc, g.distinct, hle, fun _ => ⟨psize, hp', hfits psize hp'⟩⟩
  · split
    next hany =>
      obtain ⟨psize, hp, _⟩ := hgrow hany
      refine ⟨hc, ?_, ?_, fun _ => ⟨psize, hp, hfits psize hp⟩⟩
      · rw [List.nodup_append]
        refine ⟨g.distinct, List.nodup_singleton _, ?_⟩
        rintro k hk l hl rfl
        cases List.mem_singleton.mp hl
        exact hin hk
      · intro k hk
        rcases List.mem_append.mp hk with hk | hk
        · exact hle k hk
        · exact Nat.le_of_eq (List.mem_singleton.mp hk)
    next =>
      rw [List.append_nil]
      exact ⟨hc, g.distinct, hle, fun h => absurd h hin⟩

/-- The steps of a session's life within one connection. -/
def RecvOp.within : RecvOp → Bool
  | .conn _ => false
  | .disc => false
  | _ => true

theorem Grown.step {f : Nat → Nat} (hf : C.Classes f) (hu : C.Units32) {rbs : Nat} (hsize : rbs < 4294967296)
    {s s' : Receiver σ} {past : List Nat} {op : RecvOp} (g : Grown C f rbs s past) (hop : op.within = true)
    (hs : s.step (SessionTCP.defaults rbs) P op = some s') (hsafe : GrowthSafe f rbs s op) :
    Grown C f rbs s' (past ++ if (s.arranges (SessionTCP.defaults rbs) P op).any enlarging then
      [s'.frames.length] else []) := by
  have hv := SessionTCP.sound_defaults rbs
  have hc := g.classed.step hf hu hv hsize hs
  cases g.classed.inv.moves hu hv hsize hs with
  | still hrbuf hunit hwindow hdata _ _ _ hnone =>
    have hlen : s'.frames.length = s.frames.length := by simpa using congrArg List.length hdata
    rw [hnone, List.any_nil, if_neg Bool.false_ne_true, List.append_nil]
    refine ⟨hc, g.distinct, hlen ▸ g.le, fun hin => ?_⟩
    obtain ⟨psize, hp, hfit⟩ := g.kept (hlen ▸ hin)
    exact ⟨psize, hwindow ▸ hp, by rw [hrbuf, hunit]; exact hfit⟩
  | opened => cases hop
  | closed => cases hop
  | turned hne => exact g.complete hf hu hsize hne hs hsafe

theorem Grown.run {f : Nat → Nat} (hf : C.Classes f) (hu : C.Units32) {rbs : Nat} (hsize : rbs < 4294967296)
    {s s' : Receiver σ} {past : List Nat} {ops : List RecvOp} (g : Grown C f rbs s past)
    (hops : ∀ op ∈ ops, op.within = true)
    (safe : Machine.Along (Receiver.step (SessionTCP.defaults rbs) P) (GrowthSafe f rbs) s ops)
    (run : Machine.exec (Receiver.step (SessionTCP.defaults rbs) P) s ops = some s') :
    Grown C f rbs s' (past ++ s.enlarged (SessionTCP.defaults rbs) P ops) := by
  induction ops generalizing s past with
  | nil =>
    cases Option.some.inj run
    rwa [enlarged, List.append_nil]
  | cons op ops ih =>
    obtain ⟨mid, hm, hrest⟩ := Option.bind_eq_some_iff.mp run
    have hmid := g.step hf hu hsize (hops op List.mem_cons_self) hm safe.1
    have hend := ih hmid (fun o ho => hops o (List.mem_cons_of_mem _ ho)) (safe.2 mid hm) hrest
    rw [enlarged, hm]
    rwa [List.append_assoc] at hend

end Ven
