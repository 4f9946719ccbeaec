import Ven.ArchivePass
import Ven.FrameParse
import Ven.MemPoolGet
import Ven.MemPoolRuns

namespace Ven

open Archive BufConv

variable {σ : Type}

/-- What `set_size` may do to a packet: the encodings of the fields keep their lengths. -/
def KeepsLengths (ts : List Ty) (setSize : Nat → Packet ts → Packet ts) (p : Packet ts) : Prop :=
  ∀ n, (Packet.enc ts (setSize n p)).map List.length = (Packet.enc ts p).map List.length

/-- The first field is a `uint32_t`, and `set_size` stores the size there. -/
def StoresSize : (ts : List Ty) → (Nat → Packet ts → Packet ts) → Packet ts → Prop
  | [], _, _ => False
  | t :: _, setSize, p => t = .fixed .uint32 ∧ ∀ n, t.enc (setSize n p).1 = Bytes.leBytes 4 n

theorem view_congr {r r' : Ram σ} {b : Buf} (h : ∀ id ∈ b.held, SameBlock r.heap r'.heap id) :
    view r' b = view r b := by
  unfold view
  cases hb : b.mem with
  | none => rfl
  | some id =>
    obtain ⟨m, m', hm, hm', _, hbytes⟩ := h id (by simp [Buf.held, hb])
    simp [hm, hm', hbytes]

/-- Writing through `buf_` is a write to the block. -/
theorem setView_store {r : Ram σ} {id len : Nat} (data : List UInt8) :
    setView r ⟨some id, 0, len⟩ (Bytes.writeAt (view r ⟨some id, 0, len⟩) 0 data) = r.store id 0 data := by
  unfold setView view Ram.store Heap.store
  dsimp only [Option.bind_some]
  cases hm : r.heap id with
  | none => rfl
  | some m => simp

theorem view_store {r : Ram σ} {id : Nat} {m : Mem} (hm : r.heap id = some m) (len : Nat) (data : List UInt8) :
    view (r.store id 0 data) ⟨some id, 0, len⟩ = Bytes.writeAt (view r ⟨some id, 0, len⟩) 0 data := by
  have hs := Heap.store_self hm 0 data
  unfold view
  dsimp only [Option.bind_some, Ram.store]
  rw [hs, hm]
  simp

theorem length_bytes {ts : List Ty} {p q : Packet ts}
    (h : (Packet.enc ts p).map List.length = (Packet.enc ts q).map List.length) :
    (Packet.bytes ts p).length = (Packet.bytes ts q).length := by
  rw [Packet.bytes, Packet.bytes, List.length_flatten, List.length_flatten, h]

/-- What `make_buf` gives for a packet: a buffer of exactly the packet's encoding. -/
structure Made {P : IMemPool σ} (C : PoolContract P) (H : Multiset Nat) (ts : List Ty) (p : Packet ts)
    (b : Buf) (r : Ram σ) (ar : Archive) : Prop where
  inv : C.Inv r (b.held + H)
  len : b.len = (Packet.bytes ts p).length
  bytes : Bytes.readAt (view r b) 0 b.len = Packet.bytes ts p
  trail : ar.trail = ends 0 (Packet.enc ts p)
  tiles : Tiles 0 ar.writes b.len

theorem fields_nil {ts : List Ty} {p : Packet ts} (h : (Packet.bytes ts p).length = 0) : ts = [] := by
  cases ts with
  | nil => rfl
  | cons t ts =>
    have hbytes : Packet.bytes (t :: ts) p = t.enc p.1 ++ Packet.bytes ts p.2 := rfl
    have hpos := enc_pos t p.1
    rw [hbytes, List.length_append] at h
    omega

/-- The packet's own size field is what `get_packet_size` finds. -/
theorem getPacketSize_bytes {ts : List Ty} {setSize : Nat → Packet ts → Packet ts} {p p' : Packet ts}
    {n len : Nat} (hp : p' = setSize n p) (hstore : StoresSize ts setSize p) (hn : n < 4294967296) (hl : len = n) :
    SessionTCP.getPacketSize (Packet.bytes ts p') = some len := by
  cases ts with
  | nil => exact hstore.elim
  | cons t ts =>
    have hbytes : Packet.bytes (t :: ts) p' = Bytes.leBytes 4 n ++ Packet.bytes ts p'.2 := by
      rw [← hstore.2 n, hp]
      rfl
    have hlen := Bytes.length_leBytes 4 n
    rw [hbytes, SessionTCP.getPacketSize_of_le (by rw [List.length_append]; omega),
      List.take_left' hlen, Bytes.leNat_leBytes hn, hl]

section
variable {P : IMemPool σ} (C : PoolContract P) (I : Impl)

theorem makeBuf_spec {ts : List Ty} {setSize : Nat → Packet ts → Packet ts} {p : Packet ts}
    (hset : KeepsLengths ts setSize p) (hlen : (Packet.bytes ts p).length < 4294967296) {r : Ram σ}
    {H : Multiset Nat} (hr : C.Inv r H) :
    (makeBuf I P ts setSize r p).2.2.1 = setSize (Packet.bytes ts p).length p ∧
      Made C H ts (setSize (Packet.bytes ts p).length p) (makeBuf I P ts setSize r p).1
        (makeBuf I P ts setSize r p).2.1 (makeBuf I P ts setSize r p).2.2.2 := by
  obtain ⟨hsize, _⟩ := size_pass I p (.new .size (fun _ => 0) 0) rfl (by
    change 0 + _ < _
    omega)
  replace hsize : (serialize I ts (.new .size (fun _ => 0) 0) p).1.pos = (Packet.bytes ts p).length :=
    hsize.trans (Nat.zero_add _)
  unfold makeBuf
  dsimp only
  rw [hsize]
  generalize hn : (Packet.bytes ts p).length = n
  generalize hp : setSize n p = p'
  have hn' : (Packet.bytes ts p').length = n := by
    rw [← hp, ← hn]
    exact length_bytes (hset _)
  rw [hn] at hlen
  by_cases hz : n = 0
  · cases hz
    cases fields_nil hn'
    rw [if_pos rfl]
    exact ⟨rfl, by simpa using hr, rfl, rfl, rfl, rfl⟩
  obtain ⟨id, m, hget, _, hm, hfit, hinv, _⟩ := C.get n hr
  rw [if_neg hz, hget, if_neg (by simp)]
  dsimp only
  generalize (P.get r n).2 = r₁ at hm hinv
  have hinv₂ := C.addRef hinv (Multiset.mem_cons_self id H)
  have hm₂ : (r₁.addRef id).heap id = some { m with ref := m.ref + 1 } := Heap.addRef_self hm
  have hassign : Buf.assign P r₁ Buf.null ⟨some id, 0, n⟩ = (⟨some id, 0, n⟩, r₁.addRef id) := rfl
  rw [hassign]
  dsimp only
  generalize r₁.addRef id = r₂ at hinv₂ hm₂
  obtain ⟨hmem, htrail, ⟨ws, hws, htiles⟩, _⟩ := write_pass I p' (.new .write (view r₂ ⟨some id, 0, n⟩) n) rfl
    hlen (by change 0 + _ ≤ n; omega)
  replace hmem : (serialize I ts (.new .write (view r₂ ⟨some id, 0, n⟩) n) p').1.mem =
    Bytes.writeAt (view r₂ ⟨some id, 0, n⟩) 0 (Packet.bytes ts p') := hmem
  replace htiles : Tiles 0 ws (0 + (Packet.bytes ts p').length) := htiles
  rw [hmem, setView_store]
  have hview := view_store hm₂ n (Packet.bytes ts p')
  have hinv₃ := C.store 0 (Packet.bytes ts p') hinv₂ (Multiset.mem_cons_self id _)
  generalize r₂.store id 0 (Packet.bytes ts p') = r₃ at hview hinv₃
  obtain ⟨m₃, hm₃⟩ := C.live hinv₃ (Multiset.mem_cons_self id _)
  obtain ⟨hinv₄, same₄⟩ := C.relRef (C.addRef hinv₃ (Multiset.mem_cons_self id _))
  obtain ⟨hinv₅, same₅⟩ := C.relRef hinv₄
  have hsame : SameBlock r₃.heap (P.relRef (P.relRef (r₃.addRef id) id) id).heap id :=
    ((SameBlock.addRef hm₃).trans (same₄ id (Multiset.mem_cons_self id _))).trans
      (same₅ id (Multiset.mem_cons_self id _))
  refine ⟨rfl, hinv₅, hn'.symm, ?_, htrail, ?_⟩
  · have hv : view (P.relRef (P.relRef (r₃.addRef id) id) id) ⟨some id, 0, n⟩ = view r₃ ⟨some id, 0, n⟩ := by
      apply view_congr
      intro k hk
      rw [Buf.held_some, Multiset.mem_singleton] at hk
      rw [hk]
      exact hsame
    change Bytes.readAt (view (P.relRef (P.relRef (r₃.addRef id) id) id) ⟨some id, 0, n⟩) 0 n = _
    rw [hv, hview, ← hn']
    exact Bytes.readAt_writeAt_same _ _ _
  · change Tiles 0 (serialize I ts (.new .write (view r₂ ⟨some id, 0, n⟩) n) p').1.writes n
    rw [hws, ← hn', ← Nat.zero_add (Packet.bytes ts p').length]
    exact htiles

/-- `make_from` is a read pass over what `buf` holds, and gives the memory back. -/
theorem makeFrom_reads {H : Multiset Nat} {b : Buf} {r : Ram σ} (hinv : C.Inv r (b.held + H)) (ts : List Ty)
    (e : Packet ts) :
    (makeFrom I P ts r b e).2 = serialize I ts (.new .read (view r b) b.len) e ∧
      C.Inv (makeFrom I P ts r b e).1 (b.held + H) := by
  have hinv' : C.Inv r (Buf.null.held + (b.held + H)) := by simpa using hinv
  obtain ⟨hb, hinv₁, same⟩ := C.assign_spec hinv'
  have hview : view (Buf.assign P r Buf.null b).2 b = view r b :=
    view_congr fun id hid => same id (Multiset.mem_add.mpr (Or.inl hid))
  unfold makeFrom
  dsimp only
  rw [hb, hview]
  exact ⟨rfl, (C.destroy_spec hinv₁).1⟩

theorem makeFrom_spec {H : Multiset Nat} {ts : List Ty} {p : Packet ts} {b : Buf} {r : Ram σ}
    {ar : Archive} (made : Made C H ts p b r ar) (hlen : (Packet.bytes ts p).length < 4294967296)
    {e : Packet ts} (he : Packet.Empty ts e) :
    Packet.Same ts p (makeFrom I P ts r b e).2.2 ∧ (makeFrom I P ts r b e).2.1.pos = b.len ∧
      C.Inv (makeFrom I P ts r b e).1 (b.held + H) := by
  obtain ⟨hpass, hinv⟩ := makeFrom_reads C I made.inv ts e
  have hl := made.len
  obtain ⟨hsame, hpos⟩ := read_pass I p e he (.new .read (view r b) b.len) rfl (by change b.len < _; omega) (by
    refine ⟨by change 0 + _ ≤ b.len; omega, ?_⟩
    rw [← hl]
    exact made.bytes)
  rw [hpass]
  refine ⟨hsame, ?_, hinv⟩
  rw [hpos, hl]
  exact Nat.zero_add _

/-- Round trip: the size pass, the write pass and the buffer's length agree field by field, and
`make_from` gives back every field and stops at the buffer's end. -/
theorem makeFrom_makeBuf {ts : List Ty} {setSize : Nat → Packet ts → Packet ts} {p : Packet ts}
    (hset : KeepsLengths ts setSize p) (hlen : (Packet.bytes ts p).length < 4294967296) {r : Ram σ}
    {H : Multiset Nat} (hr : C.Inv r H) {sizing ar : Archive} {b : Buf} {r' : Ram σ} {p' : Packet ts}
    (hsizing : (serialize I ts (.new .size (fun _ => 0) 0) p).1 = sizing)
    (hmade : makeBuf I P ts setSize r p = (b, r', p', ar)) :
    p' = setSize sizing.pos p ∧ b.len = sizing.pos ∧ b.len = (Packet.bytes ts p').length ∧
    ar.trail = sizing.trail ∧ Tiles 0 ar.writes b.len ∧ (∀ m, EachFills I ts (.new .write m b.len) p') ∧
    Bytes.readAt (view r' b) 0 b.len = Packet.bytes ts p' ∧
    (StoresSize ts setSize p → SessionTCP.getPacketSize (Bytes.readAt (view r' b) 0 b.len) = some b.len) ∧
    C.Inv r' (b.held + H) ∧
    ∀ e, Packet.Empty ts e → Packet.Same ts p' (makeFrom I P ts r' b e).2.2 ∧
      (makeFrom I P ts r' b e).2.1.pos = b.len ∧ C.Inv (makeFrom I P ts r' b e).1 (b.held + H) := by
  obtain ⟨hpos, htrail⟩ := size_pass I p (.new .size (fun _ => 0) 0) rfl (by
    change 0 + _ < _
    omega)
  rw [hsizing] at hpos htrail
  replace hpos : sizing.pos = (Packet.bytes ts p).length := hpos.trans (Nat.zero_add _)
  replace htrail : sizing.trail = ends 0 (Packet.enc ts p) := htrail
  obtain ⟨hp, made⟩ := makeBuf_spec C I hset hlen hr
  rw [hmade] at hp made
  dsimp only at hp made
  rw [← hpos] at hp made
  rw [← hp] at made
  have hsame : (Packet.bytes ts p').length = sizing.pos := by
    rw [hp, hpos]
    exact length_bytes (hset _)
  have hl : b.len = sizing.pos := made.len.trans hsame
  have hlen' : (Packet.bytes ts p').length < 4294967296 := by omega
  refine ⟨hp, hl, made.len, ?_, made.tiles, fun m => ?_, made.bytes, fun hstore => ?_, made.inv,
    fun e he => makeFrom_spec C I made hlen' he⟩
  · rw [made.trail, htrail, hp]
    exact ends_congr (hset _) 0
  · exact (write_pass I p' (.new .write m b.len) rfl (by change b.len < _; omega) (by
      change 0 + _ ≤ b.len
      omega)).2.2.2
  · rw [made.bytes]
    exact getPacketSize_bytes hp hstore (by omega) hl

end

/-- A size field and a text. -/
def storeSize (n : Nat) (p : Packet [.fixed .uint32, .string]) : Packet [.fixed .uint32, .string] :=
  (⟨Bytes.leBytes 4 n, Bytes.length_leBytes 4 n⟩, p.2)

theorem makeFrom_makeBuf_sample :
    let made := makeBuf Impl.plain memPool [.fixed .uint32, .string] storeSize
      (MemPool.init ⟨[16], fun _ => ⟨1, 1⟩, by decide⟩) (⟨[0, 0, 0, 0], rfl⟩, ([104, 105] : List UInt8), ())
    SessionTCP.getPacketSize (Bytes.readAt (view made.2.1 made.1) 0 made.1.len) = some made.1.len ∧
    Packet.Same [.fixed .uint32, .string] made.2.2.1
      (makeFrom Impl.plain memPool [.fixed .uint32, .string] made.2.1 made.1
        (⟨[0, 0, 0, 0], rfl⟩, ([] : List UInt8), ())).2.2 := by
  have hinit : (memPool_contract (MemPool.configured ⟨[16], fun _ => ⟨1, 1⟩, by decide⟩) fun _ => none).Inv
      (MemPool.init ⟨[16], fun _ => ⟨1, 1⟩, by decide⟩) (heldBy [] + (([] : List Nat) : Multiset Nat)) :=
    MemPool.inv_init (by decide)
  have hset : KeepsLengths [.fixed .uint32, .string] storeSize
      (⟨[0, 0, 0, 0], rfl⟩, ([104, 105] : List UInt8), ()) := fun _ => rfl
  have hempty : Packet.Empty [.fixed .uint32, .string] (⟨[0, 0, 0, 0], rfl⟩, ([] : List UInt8), ()) :=
    ⟨trivial, rfl, trivial⟩
  have h := makeFrom_makeBuf _ Impl.plain hset (by decide) hinit rfl rfl
  exact ⟨h.2.2.2.2.2.2.2.1 ⟨rfl, fun _ => rfl⟩, (h.2.2.2.2.2.2.2.2.2 _ hempty).1⟩

end Ven
