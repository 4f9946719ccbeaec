import Ven.BufVars
import Ven.RBufSpec
import Ven.ZeroCopy

namespace Ven

variable {σ : Type}

/-- A receive buffer, and the other users of its pool with what they hold. -/
structure RBufUse (σ : Type) where
  rbuf : RBuf
  vars : BufVars σ

/-- `moveTail` brings the bytes that were received behind `tail_`; `copyBuf` hands out a reference to the block. -/
inductive RBufOp
  | init (bufferSize remaining : UInt32)
  | moveTail (data : List UInt8)
  | moveHead (dist : UInt32)
  | checkSize (packetSize : UInt32)
  | checkArrange
  | copyBuf
  | other (op : BufOp)

namespace RBufUse

def ram (s : RBufUse σ) : Ram σ := s.vars.ram

def start (vars : BufVars σ) : RBufUse σ := ⟨RBuf.null, vars⟩

def withRam (s : RBufUse σ) (b : RBuf) (r : Ram σ) : RBufUse σ := ⟨b, { s.vars with ram := r }⟩

/-- There is a block, and `head_ <= tail_ <= end`. -/
def Window (s : RBufUse σ) : Prop :=
  s.rbuf.buf.mem.isSome ∧ s.rbuf.head ≤ s.rbuf.tail ∧ s.rbuf.tail ≤ s.ram.unitAt s.rbuf.buf

instance (s : RBufUse σ) : Decidable s.Window := inferInstanceAs (Decidable (_ ∧ _))

def apply (P : IMemPool σ) (s : RBufUse σ) : RBufOp → Option (RBufUse σ)
  | .init bufferSize remaining =>
    let (b, r) := s.rbuf.init P s.ram bufferSize.toNat remaining.toNat
    some (s.withRam b r)
  | .moveTail data =>
    match s.rbuf.buf.mem with
    | none => none
    | some id => some (s.withRam (s.rbuf.moveTail data.length) (s.ram.store id s.rbuf.tail data))
  | .moveHead dist => some (s.withRam (s.rbuf.moveHead dist.toNat) s.ram)
  | .checkSize packetSize =>
    let (b, r, _) := s.rbuf.checkSize P s.ram packetSize.toNat
    some (s.withRam b r)
  | .checkArrange =>
    let (b, r, _) := s.rbuf.checkArrange P s.ram
    some (s.withRam b r)
  | .copyBuf =>
    let (buf, r) := s.rbuf.copyBuf s.ram
    some ⟨s.rbuf, { s.vars with ram := r, bufs := buf :: s.vars.bufs }⟩
  | .other op => (s.vars.step P op).map fun vars => ⟨s.rbuf, vars⟩

/-- What reads `buf_` needs a block, and is to end with `head_` and `tail_` inside it. -/
def usesBlock : RBufOp → Bool
  | .init _ _ => false
  | .other _ => false
  | _ => true

def step (P : IMemPool σ) (s : RBufUse σ) (op : RBufOp) : Option (RBufUse σ) :=
  (s.apply P op).filter fun t => !usesBlock op || (s.rbuf.buf.mem.isSome && decide t.Window)

/-- `check_size(packetSize)` leaves a block that is large enough, with the same bytes at `head_`, and no byte was
copied behind its end. -/
structure Enlarges (P : IMemPool σ) (s : RBufUse σ) (packetSize : Nat) : Prop where
  large : packetSize ≤
    (s.rbuf.checkSize P s.ram packetSize).2.1.unitAt (s.rbuf.checkSize P s.ram packetSize).1.buf
  len : (s.rbuf.checkSize P s.ram packetSize).1.dataLen = s.rbuf.dataLen
  bytes : (s.rbuf.checkSize P s.ram packetSize).2.1.loadAt (s.rbuf.checkSize P s.ram packetSize).1.buf
      (s.rbuf.checkSize P s.ram packetSize).1.head s.rbuf.dataLen =
    s.ram.loadAt s.rbuf.buf s.rbuf.head s.rbuf.dataLen
  inside : ∀ w ∈ (s.rbuf.checkSize P s.ram packetSize).2.2,
    (s.rbuf.checkSize P s.ram packetSize).1.buf.mem = some w.mem ∧
      w.pos + w.len ≤ (s.rbuf.checkSize P s.ram packetSize).2.1.unitAt (s.rbuf.checkSize P s.ram packetSize).1.buf

variable {P : IMemPool σ} {C : PoolContract P} {s s' : RBufUse σ} {op : RBufOp} {ops : List RBufOp}

/-- The pool's contract, and a block with the window inside it unless there is none yet. -/
structure Inv (C : PoolContract P) (s : RBufUse σ) : Prop where
  pool : C.Inv s.ram (s.rbuf.buf.held + s.vars.holders)
  default : s.rbuf.defaultSize < 4294967296
  block : s.rbuf.buf.mem = none ∨ ∃ id m, s.rbuf.Ok s.ram id m

theorem inv_start {vars : BufVars σ} (h : C.Inv vars.ram vars.holders) : Inv C (start vars) := by
  refine ⟨?_, Nat.zero_lt_succ _, Or.inl rfl⟩
  change C.Inv vars.ram (Buf.null.held + vars.holders)
  rwa [Buf.held_null, zero_add]

theorem Inv.ok (h : Inv C s) (hbuf : s.rbuf.buf.mem.isSome) : ∃ id m, s.rbuf.Ok s.ram id m := by
  rcases h.block with hnone | hok
  · rw [hnone] at hbuf
    cases hbuf
  · exact hok

theorem step_eq (hs : s.step P op = some s') :
    s.apply P op = some s' ∧ (usesBlock op = true → s.rbuf.buf.mem.isSome ∧ s'.Window) := by
  obtain ⟨happly, hw⟩ := Option.filter_eq_some_iff.mp hs
  refine ⟨happly, fun hu => ?_⟩
  simpa [hu] using hw

theorem ok_of_window {id : Nat} {m : Mem} (hmem : s.rbuf.buf.mem = some id) (hlive : s.ram.heap id = some m)
    (hbits : m.unit < 4294967296) (hw : s.Window) : s.rbuf.Ok s.ram id m := by
  have hunit : s.ram.unitAt s.rbuf.buf = m.unit := by simp [Ram.unitAt, hmem, hlive]
  exact ⟨hmem, hlive, hbits, hw.2.1, hunit ▸ hw.2.2⟩

theorem apply_checkSize (P : IMemPool σ) (s : RBufUse σ) (packetSize : UInt32) :
    s.apply P (.checkSize packetSize) = some (s.withRam (s.rbuf.checkSize P s.ram packetSize.toNat).1
      (s.rbuf.checkSize P s.ram packetSize.toNat).2.1) := rfl

theorem apply_checkArrange (P : IMemPool σ) (s : RBufUse σ) : s.apply P .checkArrange =
    some (s.withRam (s.rbuf.checkArrange P s.ram).1 (s.rbuf.checkArrange P s.ram).2.1) := rfl

theorem apply_copyBuf (P : IMemPool σ) (s : RBufUse σ) : s.apply P .copyBuf = some ⟨s.rbuf,
    ⟨(Buf.copy s.ram s.rbuf.buf).2, (Buf.copy s.ram s.rbuf.buf).1 :: s.vars.bufs, s.vars.dettached⟩⟩ := rfl

theorem inv_init (hu : C.Units32) (h : Inv C s) {bufferSize remaining : UInt32}
    (hs : s.apply P (.init bufferSize remaining) = some s') : Inv C s' := by
  cases Option.some.inj hs
  obtain ⟨id, m, ok, _, _, _, _, _, hdef, hinv, _⟩ :=
    RBuf.init_again C hu (b := s.rbuf) remaining.toNat h.pool bufferSize.toNat_lt
  exact ⟨hinv, by rw [show (s.withRam _ _).rbuf.defaultSize = _ from hdef]; exact bufferSize.toNat_lt, Or.inr ⟨id, m, ok⟩⟩

theorem inv_moveTail (h : Inv C s) {data : List UInt8} (hs : s.apply P (.moveTail data) = some s') (hw : s'.Window) :
    Inv C s' := by
  unfold apply at hs
  cases hmem : s.rbuf.buf.mem with
  | none => simp [hmem] at hs
  | some id =>
    simp only [hmem] at hs
    cases Option.some.inj hs
    obtain ⟨id', m, ok⟩ := h.ok (by rw [hmem]; rfl)
    cases Option.some.inj (hmem.symm.trans ok.mem)
    have hid : id ∈ s.rbuf.buf.held + s.vars.holders := by simp [ok.held_eq]
    exact ⟨C.store s.rbuf.tail data h.pool hid, h.default,
      Or.inr ⟨id, _, ok_of_window hmem (Heap.store_self ok.live _ data) ok.unit hw⟩⟩

theorem inv_moveHead (h : Inv C s) {dist : UInt32} (hs : s.apply P (.moveHead dist) = some s')
    (hbuf : s.rbuf.buf.mem.isSome) (hw : s'.Window) : Inv C s' := by
  cases Option.some.inj hs
  obtain ⟨id, m, ok⟩ := h.ok hbuf
  exact ⟨h.pool, h.default, Or.inr ⟨id, m, ok_of_window ok.mem ok.live ok.unit hw⟩⟩

theorem inv_checkSize (hu : C.Units32) (h : Inv C s) {packetSize : UInt32}
    (hs : s.apply P (.checkSize packetSize) = some s') (hbuf : s.rbuf.buf.mem.isSome) (hw : s'.Window) : Inv C s' := by
  rw [apply_checkSize] at hs
  cases Option.some.inj hs
  obtain ⟨id, m, ok⟩ := h.ok hbuf
  unfold RBuf.checkSize at hw ⊢
  split at hw
  next hlt =>
    obtain ⟨id', m', c, _⟩ := RBuf.change_copied C hu ok h.pool (u32_lt ((packetSize.toNat : Int) * 2))
    rw [if_pos hlt]
    refine ⟨c.inv, ?_, Or.inr ⟨id', m', ok_of_window c.mem c.live c.bits hw⟩⟩
    exact Nat.lt_of_le_of_lt (Nat.le_of_eq c.default) h.default
  next hge =>
    rw [if_neg hge]
    exact ⟨h.pool, h.default, Or.inr ⟨id, m, ok⟩⟩

theorem inv_checkArrange (hu : C.Units32) (h : Inv C s) (hs : s.apply P .checkArrange = some s')
    (hbuf : s.rbuf.buf.mem.isSome) : Inv C s' := by
  rw [apply_checkArrange] at hs
  cases Option.some.inj hs
  obtain ⟨id, m, ok⟩ := h.ok hbuf
  have ha := RBuf.checkArrange_spec C hu ok h.pool h.default
  obtain ⟨id', m', ok', _, _⟩ := ha.ok
  exact ⟨ha.inv, Nat.lt_of_le_of_lt (Nat.le_of_eq ha.default) h.default, Or.inr ⟨id', m', ok'⟩⟩

theorem inv_copyBuf (h : Inv C s) (hs : s.apply P .copyBuf = some s') : Inv C s' := by
  rw [apply_copyBuf] at hs
  cases Option.some.inj hs
  obtain ⟨hinv, hsame⟩ := C.copy_spec h.pool
  refine ⟨?_, h.default, ?_⟩
  · change C.Inv (Buf.copy s.ram s.rbuf.buf).2
      (s.rbuf.buf.held + (heldBy ((Buf.copy s.ram s.rbuf.buf).1 :: s.vars.bufs) + (s.vars.dettached : Multiset Nat)))
    rw [heldBy_cons, add_assoc, add_left_comm]
    exact hinv
  · rcases h.block with hnone | ⟨id, m, ok⟩
    · exact Or.inl hnone
    · obtain ⟨m', ok', _, _⟩ := ok.of_same (hsame id (by simp [ok.held_eq]))
      exact Or.inr ⟨id, m', ok'⟩

theorem inv_other (h : Inv C s) {op : BufOp} (hs : s.apply P (.other op) = some s') : Inv C s' := by
  obtain ⟨vars, hv, rfl⟩ := Option.map_eq_some_iff.mp hs
  have hpool : C.Inv s.vars.ram (s.vars.holders + s.rbuf.buf.held) := add_comm s.rbuf.buf.held _ ▸ h.pool
  obtain ⟨hinv, hkeep⟩ := bufVars_step_frame C hpool hv
  refine ⟨?_, h.default, ?_⟩
  · change C.Inv vars.ram (s.rbuf.buf.held + vars.holders)
    rwa [add_comm]
  · rcases h.block with hnone | ⟨id, m, ok⟩
    · exact Or.inl hnone
    · obtain ⟨m', ok', _, _⟩ := ok.of_same (hkeep id (by simp [ok.held_eq])).1
      exact Or.inr ⟨id, m', ok'⟩

theorem inv_step (hu : C.Units32) (h : Inv C s) (hs : s.step P op = some s') : Inv C s' := by
  obtain ⟨happly, hw⟩ := step_eq hs
  cases op with
  | init bufferSize remaining => exact inv_init hu h happly
  | moveTail data => exact inv_moveTail h happly (hw rfl).2
  | moveHead dist => exact inv_moveHead h happly (hw rfl).1 (hw rfl).2
  | checkSize packetSize => exact inv_checkSize hu h happly (hw rfl).1 (hw rfl).2
  | checkArrange => exact inv_checkArrange hu h happly (hw rfl).1
  | copyBuf => exact inv_copyBuf h happly
  | other op => exact inv_other h happly

theorem inv_exec (hu : C.Units32) {vars : BufVars σ} (hvars : C.Inv vars.ram vars.holders)
    (run : Machine.exec (step P) (start vars) ops = some s) : Inv C s :=
  Machine.exec_invariant (I := Inv C) (fun _ _ _ hi hs => inv_step hu hi hs) (inv_start hvars) run

/-- The size that `check_size` asks the pool for. -/
def asked (packetSize : Nat) : Nat := u32 ((packetSize : Int) * 2)

theorem enlarges_of_large {packetSize : Nat} (hle : packetSize ≤ s.ram.unitAt s.rbuf.buf) : s.Enlarges P packetSize := by
  have hsame : s.rbuf.checkSize P s.ram packetSize = (s.rbuf, s.ram, []) := if_neg (Nat.not_lt_of_le hle)
  refine ⟨?_, ?_, ?_, ?_⟩
  · rw [hsame]
    exact hle
  · rw [hsame]
  · rw [hsame]
  · intro w hw
    rw [hsame] at hw
    cases hw

theorem enlarges_iff {packetSize : Nat} (hu : C.Units32) (h : Inv C s) (hbuf : s.rbuf.buf.mem.isSome) :
    s.Enlarges P packetSize ↔
      packetSize ≤ s.ram.unitAt s.rbuf.buf ∨ packetSize ≤ (P.get s.ram (asked packetSize)).1.len := by
  by_cases hle : packetSize ≤ s.ram.unitAt s.rbuf.buf
  · exact ⟨fun _ => Or.inl hle, fun _ => enlarges_of_large hle⟩
  · obtain ⟨id, m, ok⟩ := h.ok hbuf
    have hasked : asked packetSize < 4294967296 := u32_lt _
    obtain ⟨id', m', c, hw⟩ := RBuf.change_copied C hu ok h.pool hasked
    have hchange : s.rbuf.checkSize P s.ram packetSize = s.rbuf.change P s.ram (asked packetSize) :=
      if_pos (Nat.lt_of_not_le hle)
    have hunit : (s.rbuf.checkSize P s.ram packetSize).2.1.unitAt (s.rbuf.checkSize P s.ram packetSize).1.buf =
        (P.get s.ram (asked packetSize)).1.len := by
      rw [hchange]
      simp only [Ram.unitAt, c.mem, Option.bind_some, c.live, Option.map_some, Option.getD_some]
      exact c.unit
    constructor
    · intro he
      have hlarge := he.large
      rw [hunit] at hlarge
      exact Or.inr hlarge
    · rintro (habs | hfit)
      · exact absurd habs hle
      · have htail := ok.tail
        have hdata := ok.dataLen_eq
        rw [ok.unitAt] at hle
        refine ⟨hunit ▸ hfit, ?_, ?_, ?_⟩
        · rw [hchange, RBuf.dataLen, c.head, c.tail]
          exact u32_of_lt (u32_lt _)
        · rw [hchange, c.head]
          exact c.bytes
        · intro w hmem
          rw [hunit]
          rw [hchange] at hmem ⊢
          obtain ⟨hid, hend⟩ := hw w hmem
          exact ⟨hid ▸ c.mem, by omega⟩

theorem le_asked_iff {packetSize : Nat} (h : packetSize < 4294967296) :
    packetSize ≤ asked packetSize ↔ packetSize < 2147483648 := by
  unfold asked u32
  omega

/-- `check_size` does its work just when the block was large enough, or the one that the pool gives for the low 32 bits
of twice the size is. -/
theorem checkSize_enlarges_iff (C : PoolContract P) (hu : C.Units32) {vars : BufVars σ}
    (hvars : C.Inv vars.ram vars.holders) (run : Machine.exec (step P) (start vars) ops = some s)
    (hbuf : s.rbuf.buf.mem.isSome) (packetSize : UInt32) :
    (s.Enlarges P packetSize.toNat ↔ packetSize.toNat ≤ s.ram.unitAt s.rbuf.buf ∨
      packetSize.toNat ≤ (P.get s.ram (asked packetSize.toNat)).1.len) ∧
    (packetSize.toNat < 2147483648 → s.Enlarges P packetSize.toNat) ∧
    ((P.get s.ram (asked packetSize.toNat)).1.len = asked packetSize.toNat → s.ram.unitAt s.rbuf.buf < packetSize.toNat →
      s.Enlarges P packetSize.toNat → packetSize.toNat < 2147483648) := by
  have h := inv_exec hu hvars run
  have hiff : s.Enlarges P packetSize.toNat ↔ packetSize.toNat ≤ s.ram.unitAt s.rbuf.buf ∨
      packetSize.toNat ≤ (P.get s.ram (asked packetSize.toNat)).1.len := enlarges_iff hu h hbuf
  have hsize := le_asked_iff packetSize.toNat_lt
  refine ⟨hiff, fun hlt => ?_, fun hexact hsmall he => ?_⟩
  · obtain ⟨id, m, hget, _, _, hfit, _⟩ := C.get (asked packetSize.toNat) h.pool
    refine hiff.mpr (Or.inr ?_)
    rw [hget]
    exact Nat.le_trans (hsize.mpr hlt) hfit
  · rcases hiff.mp he with hle | hle
    · omega
    · rw [hexact] at hle
      exact hsize.mp hle

/-- A buffer of 16 bytes that are all in use, and a packet of 40. -/
theorem checkSize_enlarges_forty : ∃ s, Machine.exec (step memPool)
    (start ⟨MemPool.init ⟨[4, 16], fun _ => ⟨1, 1⟩, by decide⟩, [], []⟩)
      [.init 16 4, .moveTail (List.replicate 16 7)] = some s ∧ s.Enlarges memPool 40 := by
  have run : ∃ s, Machine.exec (step memPool) (start ⟨MemPool.init ⟨[4, 16], fun _ => ⟨1, 1⟩, by decide⟩, [], []⟩)
      [.init 16 4, .moveTail (List.replicate 16 7)] = some s ∧ s.rbuf.buf.mem.isSome := ⟨_, rfl, rfl⟩
  obtain ⟨s, run, hbuf⟩ := run
  have hinit : (memPool_contract (MemPool.configured ⟨[4, 16], fun _ => ⟨1, 1⟩, by decide⟩) fun _ => none).Inv
      (MemPool.init ⟨[4, 16], fun _ => ⟨1, 1⟩, by decide⟩) (heldBy [] + (([] : List Nat) : Multiset Nat)) :=
    MemPool.inv_init (by decide)
  exact ⟨s, run, (checkSize_enlarges_iff _ (memPool_units32 (by decide) _) hinit run hbuf 40).2.1 (by decide)⟩

/-- The same buffer and a packet of 2^31 + 2 bytes: the pool is asked for 4, and 16 are copied there. -/
theorem checkSize_overruns : ∃ s, Machine.exec (step memPool)
    (start ⟨MemPool.init ⟨[4, 16], fun _ => ⟨1, 1⟩, by decide⟩, [], []⟩)
      [.init 16 4, .moveTail (List.replicate 16 7)] = some s ∧ s.Window ∧
      (s.rbuf.checkSize memPool s.ram 2147483650).2.1.unitAt (s.rbuf.checkSize memPool s.ram 2147483650).1.buf = 4 ∧
      ((s.rbuf.checkSize memPool s.ram 2147483650).2.2.map fun w => w.pos + w.len) = [16] ∧
      ¬s.Enlarges memPool 2147483650 := by
  refine ⟨_, rfl, ?_, ?_, ?_, ?_⟩
  · decide
  · rfl
  · rfl
  · intro h
    exact absurd h.large (by decide)

end RBufUse

end Ven
