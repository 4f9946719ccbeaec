import Ven.RBuf

namespace Ven

variable {σ : Type} {P : IMemPool σ}

/-- Blocks asked for with a `uint32_t` have a `uint32_t` size. -/
def PoolContract.Units32 (C : PoolContract P) : Prop :=
  ∀ {r : Ram σ} {H : Multiset Nat} (size : Nat), C.Inv r H → size < 4294967296 →
    (P.get r size).1.len < 4294967296

theorem PoolContract.get_fits (C : PoolContract P) {r : Ram σ} {H : Multiset Nat} (h : C.Inv r H) (size : Nat) :
    size ≤ (P.get r size).1.len := by
  obtain ⟨id, m, hget, _, _, hfit, _⟩ := C.get size h
  rw [hget]
  exact hfit

theorem PoolContract.load_store {r : Ram σ} {id : Nat} {m : Mem} (hm : r.heap id = some m)
    (data : List UInt8) : (r.store id 0 data).heap.load id 0 data.length = data := by
  have hs : (r.store id 0 data).heap id = some { m with bytes := Bytes.writeAt m.bytes 0 data } :=
    Heap.store_self hm 0 data
  simp only [Heap.load, hs]
  exact Bytes.readAt_writeAt_same m.bytes 0 data

/-- The receive buffer owns a block and its window lies inside it. -/
structure RBuf.Ok (b : RBuf) (r : Ram σ) (id : Nat) (m : Mem) : Prop where
  mem : b.buf.mem = some id
  live : r.heap id = some m
  unit : m.unit < 4294967296
  head : b.head ≤ b.tail
  tail : b.tail ≤ m.unit

namespace RBuf.Ok

variable {b : RBuf} {r : Ram σ} {id : Nat} {m : Mem}

theorem unitAt (ok : b.Ok r id m) : r.unitAt b.buf = m.unit := by
  simp [Ram.unitAt, ok.mem, ok.live]

theorem dataLen_eq (ok : b.Ok r id m) : b.dataLen = b.tail - b.head :=
  u32_sub ok.head (by have := ok.tail; have := ok.unit; omega)

theorem remainLen_eq (ok : b.Ok r id m) : b.remainLen r = m.unit - b.tail := by
  unfold RBuf.remainLen
  rw [ok.unitAt]
  exact u32_sub ok.tail ok.unit

theorem held_eq (ok : b.Ok r id m) : b.buf.held = {id} := by
  simp [Buf.held, ok.mem]

theorem loadAt (ok : b.Ok r id m) (pos len : Nat) : r.loadAt b.buf pos len = Bytes.readAt m.bytes pos len := by
  simp [Ram.loadAt, ok.mem, Heap.load, ok.live]

theorem of_same {r' : Ram σ} (ok : b.Ok r id m) (same : SameBlock r.heap r'.heap id) :
    ∃ m', b.Ok r' id m' ∧ m'.unit = m.unit ∧ m'.bytes = m.bytes := by
  obtain ⟨n, n', hn, hn', hu, hb⟩ := same
  cases Option.some.inj (ok.live.symm.trans hn)
  exact ⟨n', ⟨ok.mem, hn', hu ▸ ok.unit, ok.head, hu ▸ ok.tail⟩, hu, hb⟩

end RBuf.Ok

/-- What the buffered bytes and the other blocks are after the receive buffer has changed its
block: the same bytes, in a block nobody held. -/
structure RBuf.Moved (C : PoolContract P) (K : Multiset Nat) (b : RBuf) (r : Ram σ) (b' : RBuf)
    (r' : Ram σ) (size id' : Nat) (m' : Mem) : Prop where
  ok : b'.Ok r' id' m'
  fits : size ≤ m'.unit
  fresh : id' ∉ b.buf.held + K
  head : b'.head = 0
  tail : b'.tail = b.dataLen
  default : b'.defaultSize = b.defaultSize
  remaining : b'.remainingSizeToExchange = b.remainingSizeToExchange
  inv : C.Inv r' (b'.buf.held + K)
  same : ∀ k ∈ K, SameBlock r.heap r'.heap k
  bytes : r'.loadAt b'.buf 0 b.dataLen = r.loadAt b.buf b.head b.dataLen

/-- The same, whether or not the bytes fit the block: it is the one that the pool gives for `size`. -/
structure RBuf.Copied (C : PoolContract P) (K : Multiset Nat) (b : RBuf) (r : Ram σ) (b' : RBuf)
    (r' : Ram σ) (size id' : Nat) (m' : Mem) : Prop where
  mem : b'.buf.mem = some id'
  live : r'.heap id' = some m'
  unit : m'.unit = (P.get r size).1.len
  bits : m'.unit < 4294967296
  fits : size ≤ m'.unit
  fresh : id' ∉ b.buf.held + K
  head : b'.head = 0
  tail : b'.tail = b.dataLen
  default : b'.defaultSize = b.defaultSize
  remaining : b'.remainingSizeToExchange = b.remainingSizeToExchange
  inv : C.Inv r' (b'.buf.held + K)
  same : ∀ k ∈ K, SameBlock r.heap r'.heap k
  bytes : r'.loadAt b'.buf 0 b.dataLen = r.loadAt b.buf b.head b.dataLen

theorem RBuf.change_copied (C : PoolContract P) (hu : C.Units32) {b : RBuf} {r : Ram σ}
    {K : Multiset Nat} {id size : Nat} {m : Mem} (ok : b.Ok r id m) (h : C.Inv r (b.buf.held + K))
    (hsize : size < 4294967296) :
    ∃ id' m', RBuf.Copied C K b r (change P r b size).1 (change P r b size).2.1 size id' m' ∧
      ∀ s ∈ (change P r b size).2.2, s.mem = id' ∧ s.pos + s.len ≤ b.dataLen := by
  obtain ⟨new, n, hget, hnew, hn, hfit, hinv, hsame⟩ := C.get size h
  have hlt := hu size h hsize
  rw [hget] at hlt
  have hid : id ∈ b.buf.held + K := by simp [ok.held_eq]
  have hold : (P.get r size).2.heap id = some m := (hsame id hid).trans ok.live
  have hne : id ≠ new := fun he => hnew (he ▸ hid)
  have hdata : (P.get r size).2.loadAt b.buf b.head b.dataLen = r.loadAt b.buf b.head b.dataLen := by
    simp only [Ram.loadAt, ok.mem, Heap.load, hold, ok.live]
  obtain ⟨r₂, w, hif, hInv₂, hsame₂, hload₂, ⟨n₂, hn₂, hun₂⟩, hw⟩ : ∃ r₂ w,
      (if 0 < b.dataLen then copyData (P.get r size).2 b ⟨some new, 0, n.unit⟩ b.dataLen
        else ((P.get r size).2, [])) = (r₂, w) ∧
      C.Inv r₂ (new ::ₘ (b.buf.held + K)) ∧
      (∀ k ∈ b.buf.held + K, SameBlock r.heap r₂.heap k) ∧
      r₂.heap.load new 0 b.dataLen = r.loadAt b.buf b.head b.dataLen ∧
      (∃ n₂, r₂.heap new = some n₂ ∧ n₂.unit = n.unit) ∧
      ∀ s ∈ w, s.mem = new ∧ s.pos + s.len ≤ b.dataLen := by
    by_cases hpos : 0 < b.dataLen
    · refine ⟨_, _, if_pos hpos, C.store 0 _ hinv (Multiset.mem_cons_self _ _), ?_, ?_,
        ⟨_, Heap.store_self hn 0 _, rfl⟩, ?_⟩
      · intro k hk
        obtain ⟨x, hx⟩ := C.live h hk
        have hkn : k ≠ new := fun he => hnew (he ▸ hk)
        exact SameBlock.of_eq hx ((Heap.store_of_ne _ hkn 0 _).trans (hsame k hk))
      · have hl := PoolContract.load_store hn (r.loadAt b.buf b.head b.dataLen)
        rw [ok.loadAt, Bytes.length_readAt, ← ok.loadAt] at hl
        rwa [hdata]
      · intro s hs
        cases List.mem_singleton.mp hs
        exact ⟨rfl, by simp⟩
    · have hz : b.dataLen = 0 := by omega
      refine ⟨_, _, if_neg hpos, hinv, ?_, ?_, ⟨n, hn, rfl⟩, by simp⟩
      · intro k hk
        obtain ⟨x, hx⟩ := C.live h hk
        exact SameBlock.of_eq hx (hsame k hk)
      · simp [hz, ok.loadAt, Heap.load, hn]
  have hInv₂' : C.Inv r₂ (b.buf.held + ((Buf.mk (some new) 0 n.unit).held + K)) := by
    rw [Buf.held_some, Multiset.singleton_add, Multiset.add_cons]
    exact hInv₂
  obtain ⟨hbuf, hInv₃, hsame₃⟩ := C.assign_spec hInv₂'
  obtain ⟨hInv₄, hsame₄⟩ := C.destroy_spec hInv₃
  have keep : ∀ k ∈ (Buf.mk (some new) 0 n.unit).held + K, SameBlock r₂.heap
      (Buf.destroy P (Buf.assign P r₂ b.buf ⟨some new, 0, n.unit⟩).2 ⟨some new, 0, n.unit⟩).heap k :=
    fun k hk => (hsame₃ k hk).trans (hsame₄ k hk)
  have he : change P r b size = ({ b with buf := ⟨some new, 0, n.unit⟩, head := 0, tail := b.dataLen },
      Buf.destroy P (Buf.assign P r₂ b.buf ⟨some new, 0, n.unit⟩).2 ⟨some new, 0, n.unit⟩, w) := by
    unfold change
    simp only [hget, hif, hbuf]
  rw [he]
  obtain ⟨x, x', hx, hx', hux, hbx⟩ := keep new (by simp)
  cases Option.some.inj (hn₂.symm.trans hx)
  have hunit : x'.unit = n.unit := hux.trans hun₂
  refine ⟨new, x', ⟨rfl, hx', by rw [hunit, hget], hunit ▸ hlt, by omega, hnew, rfl, rfl, rfl, rfl, hInv₄, ?_, ?_⟩, hw⟩
  · intro k hk
    exact (hsame₂ k (Multiset.mem_add.mpr (Or.inr hk))).trans
      (keep k (Multiset.mem_add.mpr (Or.inr hk)))
  · change Heap.load _ new 0 b.dataLen = _
    rw [(keep new (by simp)).load, hload₂]

theorem RBuf.Copied.moved {C : PoolContract P} {K : Multiset Nat} {b b' : RBuf} {r r' : Ram σ} {size id' : Nat} {m' : Mem}
    (c : RBuf.Copied C K b r b' r' size id' m') (hlen : b.dataLen ≤ m'.unit) : RBuf.Moved C K b r b' r' size id' m' := by
  refine ⟨⟨c.mem, c.live, c.bits, ?_, ?_⟩, c.fits, c.fresh, c.head, c.tail, c.default, c.remaining, c.inv, c.same, c.bytes⟩
  · rw [c.head]
    exact Nat.zero_le _
  · rw [c.tail]
    exact hlen

theorem RBuf.change_spec (C : PoolContract P) (hu : C.Units32) {b : RBuf} {r : Ram σ}
    {K : Multiset Nat} {id size : Nat} {m : Mem} (ok : b.Ok r id m) (h : C.Inv r (b.buf.held + K))
    (hlen : b.dataLen ≤ (P.get r size).1.len) (hsize : size < 4294967296) :
    ∃ id' m', RBuf.Moved C K b r (change P r b size).1 (change P r b size).2.1 size id' m' ∧
      m'.unit = (P.get r size).1.len ∧
      ∀ s ∈ (change P r b size).2.2, s.mem = id' ∧ s.pos + s.len ≤ m'.unit := by
  obtain ⟨id', m', hc, hw⟩ := change_copied C hu ok h hsize
  have hunit := hc.unit
  refine ⟨id', m', hc.moved (hunit ▸ hlen), hunit, fun s hs => ?_⟩
  obtain ⟨hmem, hle⟩ := hw s hs
  exact ⟨hmem, by omega⟩

/-- What `check_size` and `check_arrange` may do: nothing, or move the buffered bytes to a block
that nobody held, writing only inside it. -/
structure RBuf.Arranged (C : PoolContract P) (K : Multiset Nat) (b : RBuf) (r : Ram σ) (b' : RBuf)
    (r' : Ram σ) (wrote : List Span) : Prop where
  ok : ∃ id m, b'.Ok r' id m ∧ ((b' = b ∧ r' = r) ∨ (id ∉ b.buf.held + K ∧ b'.head = 0)) ∧
    ∀ s ∈ wrote, s.mem = id ∧ id ∉ b.buf.held + K ∧ s.pos + s.len ≤ m.unit
  default : b'.defaultSize = b.defaultSize
  remaining : b'.remainingSizeToExchange = b.remainingSizeToExchange
  inv : C.Inv r' (b'.buf.held + K)
  same : ∀ k ∈ K, SameBlock r.heap r'.heap k
  len : b'.dataLen = b.dataLen
  bytes : r'.loadAt b'.buf b'.head b'.dataLen = r.loadAt b.buf b.head b.dataLen

theorem RBuf.Arranged.refl {C : PoolContract P} {b : RBuf} {r : Ram σ} {K : Multiset Nat} {id : Nat}
    {m : Mem} (ok : b.Ok r id m) (h : C.Inv r (b.buf.held + K)) : RBuf.Arranged C K b r b r [] := by
  refine ⟨⟨id, m, ok, Or.inl ⟨rfl, rfl⟩, by simp⟩, rfl, rfl, h, fun k hk => ?_, rfl, rfl⟩
  obtain ⟨n, hn⟩ := C.live h (Multiset.mem_add.mpr (Or.inr hk))
  exact SameBlock.of_eq hn rfl

theorem RBuf.change_arranged (C : PoolContract P) (hu : C.Units32) {b : RBuf} {r : Ram σ}
    {K : Multiset Nat} {id size : Nat} {m : Mem} (ok : b.Ok r id m) (h : C.Inv r (b.buf.held + K))
    (hlen : b.dataLen ≤ (P.get r size).1.len) (hsize : size < 4294967296) :
    RBuf.Arranged C K b r (change P r b size).1 (change P r b size).2.1 (change P r b size).2.2 := by
  obtain ⟨id', m', mv, _, hw⟩ := change_spec C hu ok h hlen hsize
  have hdata : (change P r b size).1.dataLen = b.dataLen := by
    have hd := mv.ok.dataLen_eq
    rw [mv.head, mv.tail] at hd
    omega
  refine ⟨⟨id', m', mv.ok, Or.inr ⟨mv.fresh, mv.head⟩, fun s hs => ?_⟩, mv.default, mv.remaining, mv.inv,
    mv.same, hdata, ?_⟩
  · exact ⟨(hw s hs).1, mv.fresh, (hw s hs).2⟩
  · rw [mv.head, hdata]
    exact mv.bytes

/-- `check_size` works as long as the block that the pool gives for the low 32 bits of twice the size holds the bytes
received so far. -/
theorem RBuf.checkSize_fits (C : PoolContract P) (hu : C.Units32) {b : RBuf} {r : Ram σ}
    {K : Multiset Nat} {id packetSize : Nat} {m : Mem} (ok : b.Ok r id m) (h : C.Inv r (b.buf.held + K))
    (hlen : r.unitAt b.buf < packetSize → b.dataLen ≤ (P.get r (u32 (packetSize * 2))).1.len) :
    RBuf.Arranged C K b r (checkSize P r b packetSize).1 (checkSize P r b packetSize).2.1
      (checkSize P r b packetSize).2.2 := by
  unfold checkSize
  split
  next hlt => exact change_arranged C hu ok h (hlen hlt) (u32_lt _)
  next => exact RBuf.Arranged.refl ok h

theorem RBuf.checkSize_spec (C : PoolContract P) (hu : C.Units32) {b : RBuf} {r : Ram σ}
    {K : Multiset Nat} {id packetSize : Nat} {m : Mem} (ok : b.Ok r id m)
    (h : C.Inv r (b.buf.held + K)) (hlen : b.dataLen ≤ packetSize)
    (hsize : packetSize * 2 < 4294967296) :
    RBuf.Arranged C K b r (checkSize P r b packetSize).1 (checkSize P r b packetSize).2.1
      (checkSize P r b packetSize).2.2 := by
  refine checkSize_fits C hu ok h fun _ => ?_
  have hmul : u32 ((packetSize : Int) * 2) = packetSize * 2 := by
    have := u32_of_lt hsize
    rwa [Int.natCast_mul] at this
  have hfits := C.get_fits h (packetSize * 2)
  rw [hmul]
  omega

theorem RBuf.checkArrange_spec (C : PoolContract P) (hu : C.Units32) {b : RBuf} {r : Ram σ}
    {K : Multiset Nat} {id : Nat} {m : Mem} (ok : b.Ok r id m) (h : C.Inv r (b.buf.held + K))
    (hdef : b.defaultSize < 4294967296) :
    RBuf.Arranged C K b r (checkArrange P r b).1 (checkArrange P r b).2.1 (checkArrange P r b).2.2 := by
  unfold checkArrange
  split
  next hs => exact change_arranged C hu ok h (Nat.le_trans (Nat.le_of_lt hs.2) (C.get_fits h _)) hdef
  next =>
    split
    next =>
      rw [ok.unitAt]
      refine change_arranged C hu ok h (Nat.le_trans ?_ (C.get_fits h _)) ok.unit
      have hd := ok.dataLen_eq
      have ht := ok.tail
      omega
    next => exact RBuf.Arranged.refl ok h

/-- `init` of a buffer that may still have a block, which it lets go. -/
theorem RBuf.init_again (C : PoolContract P) (hu : C.Units32) {b : RBuf} {r : Ram σ}
    {K : Multiset Nat} {bufferSize : Nat} (remaining : Nat)
    (h : C.Inv r (b.buf.held + K)) (hsize : bufferSize < 4294967296) :
    ∃ id m, (init P r b bufferSize remaining).1.Ok (init P r b bufferSize remaining).2 id m ∧
      m.unit = (P.get r bufferSize).1.len ∧ bufferSize ≤ m.unit ∧ id ∉ b.buf.held + K ∧
      (init P r b bufferSize remaining).1.head = 0 ∧ (init P r b bufferSize remaining).1.tail = 0 ∧
      (init P r b bufferSize remaining).1.defaultSize = bufferSize ∧
      C.Inv (init P r b bufferSize remaining).2 ((init P r b bufferSize remaining).1.buf.held + K) ∧
      ∀ k ∈ K, SameBlock r.heap (init P r b bufferSize remaining).2.heap k := by
  obtain ⟨new, n, hget, hnew, hn, hfit, hinv, hsame⟩ := C.get bufferSize h
  have hlt := hu bufferSize h hsize
  rw [hget] at hlt
  have hInv' : C.Inv (P.get r bufferSize).2 (b.buf.held + ((Buf.mk (some new) 0 n.unit).held + K)) := by
    rw [Buf.held_some, Multiset.singleton_add, Multiset.add_cons]
    exact hinv
  obtain ⟨hbuf, hInv₃, hsame₃⟩ := C.assign_spec hInv'
  obtain ⟨hInv₄, hsame₄⟩ := C.destroy_spec hInv₃
  have he : init P r b bufferSize remaining = (⟨bufferSize, remaining, ⟨some new, 0, n.unit⟩, 0, 0⟩,
      Buf.destroy P (Buf.assign P (P.get r bufferSize).2 b.buf ⟨some new, 0, n.unit⟩).2
        ⟨some new, 0, n.unit⟩) := by
    unfold init
    simp only [hget, hbuf]
  rw [he]
  have keep : ∀ k ∈ (Buf.mk (some new) 0 n.unit).held + K, SameBlock (P.get r bufferSize).2.heap
      (Buf.destroy P (Buf.assign P (P.get r bufferSize).2 b.buf ⟨some new, 0, n.unit⟩).2
        ⟨some new, 0, n.unit⟩).heap k :=
    fun k hk => (hsame₃ k hk).trans (hsame₄ k hk)
  obtain ⟨x, x', hx, hx', hux, _⟩ := keep new (by simp)
  cases Option.some.inj (hn.symm.trans hx)
  refine ⟨new, x', ⟨rfl, hx', hux ▸ hlt, Nat.le_refl _, Nat.zero_le _⟩, by rw [hux, hget], by omega, hnew, rfl, rfl, rfl,
    hInv₄, ?_⟩
  intro k hk
  have hin : k ∈ b.buf.held + K := Multiset.mem_add.mpr (Or.inr hk)
  obtain ⟨y, hy⟩ := C.live h hin
  exact (SameBlock.of_eq hy (hsame k hin)).trans (keep k (Multiset.mem_add.mpr (Or.inr hk)))

theorem RBuf.init_spec (C : PoolContract P) (hu : C.Units32) {b : RBuf} {r : Ram σ}
    {K : Multiset Nat} {bufferSize : Nat} (remaining : Nat) (hb : b.buf.mem = none)
    (h : C.Inv r K) (hsize : bufferSize < 4294967296) :
    ∃ id m, (init P r b bufferSize remaining).1.Ok (init P r b bufferSize remaining).2 id m ∧
      m.unit = (P.get r bufferSize).1.len ∧ bufferSize ≤ m.unit ∧ id ∉ K ∧
      (init P r b bufferSize remaining).1.head = 0 ∧ (init P r b bufferSize remaining).1.tail = 0 ∧
      C.Inv (init P r b bufferSize remaining).2 ((init P r b bufferSize remaining).1.buf.held + K) ∧
      ∀ k ∈ K, SameBlock r.heap (init P r b bufferSize remaining).2.heap k := by
  have hheld : b.buf.held + K = K := by simp [Buf.held, hb]
  obtain ⟨id, m, ok, hunit, hfit, hid, hhead, htail, _, hinv, hsame⟩ :=
    init_again C hu (b := b) remaining (by rwa [hheld]) hsize
  rw [hheld] at hid
  exact ⟨id, m, ok, hunit, hfit, hid, hhead, htail, hinv, hsame⟩

theorem RBuf.uninit_spec (C : PoolContract P) {b : RBuf} {r : Ram σ} {K : Multiset Nat}
    (h : C.Inv r (b.buf.held + K)) :
    (uninit P r b).1.buf = Buf.null ∧ C.Inv (uninit P r b).2 K ∧
      ∀ k ∈ K, SameBlock r.heap (uninit P r b).2.heap k := by
  have h' : C.Inv r (b.buf.held + (Buf.null.held + K)) := by rwa [Buf.held_null, zero_add]
  obtain ⟨hbuf, hinv, hsame⟩ := C.assign_spec h'
  rw [Buf.held_null, zero_add, zero_add] at hinv
  refine ⟨hbuf, hinv, fun k hk => hsame k ?_⟩
  rwa [Buf.held_null, zero_add]

end Ven
