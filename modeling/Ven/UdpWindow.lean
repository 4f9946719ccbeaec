import Ven.UdpReceive
import Ven.ReceiveWindow

namespace Ven

/-- `check_arrange` of a drained buffer leaves more room than `remaining_size_to_exchange_`, where every block is
larger than that. -/
theorem RBuf.checkArrange_remaining {σ : Type} {P : IMemPool σ} (C : PoolContract P) (hu : C.Units32) {b : RBuf}
    {r : Ram σ} {K : Multiset Nat} {id : Nat} {m : Mem} (ok : b.Ok r id m) (h : C.Inv r (b.buf.held + K))
    (hdef : b.defaultSize < 4294967296) (hempty : b.dataLen = 0)
    (hlarge : ∀ size, size < 4294967296 → b.remainingSizeToExchange < (P.get r size).1.len) :
    b.remainingSizeToExchange < (checkArrange P r b).1.remainLen (checkArrange P r b).2.1 := by
  unfold checkArrange
  split
  next hshrink =>
    obtain ⟨_, _, hroom⟩ := change_room C hu ok h (Nat.le_of_lt hshrink.2) hdef
    rw [hroom, hempty]
    exact hlarge _ hdef
  next =>
    split
    next =>
      have hlt : r.unitAt b.buf < 4294967296 := by
        rw [ok.unitAt]
        exact ok.unit
      obtain ⟨_, _, hroom⟩ := change_room C hu ok h (by omega) hlt
      rw [hroom, hempty]
      exact hlarge _ hlt
    next hroom => exact Nat.lt_of_not_le hroom

namespace ReceiverUDP

variable {σ S : Type} {P : IMemPool σ} {C : PoolContract P} {addr : S → Addr} {rbs rem : Nat}

/-- The references that do not belong to the receive buffer. -/
def rest (s : ReceiverUDP σ S) : Multiset Nat := s.cur.held + (heldBy s.bufs + (s.dettached : Multiset Nat))

/-- The receive buffer owns a block with its window inside. -/
structure Steady (C : PoolContract P) (rbs rem : Nat) (s : ReceiverUDP σ S) : Prop where
  pool : C.Inv s.ram (s.rbuf.buf.held + s.rest)
  block : ∃ id m, s.rbuf.Ok s.ram id m
  default : s.rbuf.defaultSize = rbs
  remaining : s.rbuf.remainingSizeToExchange = rem

/-- What a user of the pool leaves alone, and the size of the block in which the window is. -/
structure Beside (s s' : ReceiverUDP σ S) : Prop where
  rbuf : s'.rbuf = s.rbuf
  clientAddr : s'.clientAddr = s.clientAddr
  isReceiving : s'.isReceiving = s.isReceiving
  calls : s'.calls = s.calls
  posts : s'.posts = s.posts
  unit : s'.ram.unitAt s.rbuf.buf = s.ram.unitAt s.rbuf.buf

variable {s s' s'' : ReceiverUDP σ S}

theorem Beside.refl (s : ReceiverUDP σ S) : Beside s s := ⟨rfl, rfl, rfl, rfl, rfl, rfl⟩

theorem Beside.trans (a : Beside s s') (b : Beside s' s'') : Beside s s'' where
  rbuf := b.rbuf.trans a.rbuf
  clientAddr := b.clientAddr.trans a.clientAddr
  isReceiving := b.isReceiving.trans a.isReceiving
  calls := b.calls.trans a.calls
  posts := b.posts.trans a.posts
  unit := by
    have hunit := b.unit
    rw [a.rbuf] at hunit
    exact hunit.trans a.unit

/-- The block of the receive buffer stays where its size does. -/
theorem Ok.of_unit {b : RBuf} {r r' : Ram σ} {id : Nat} {m m' : Mem} (ok : b.Ok r id m) (hm : r'.heap id = some m')
    (hunit : m'.unit = m.unit) : b.Ok r' id m' :=
  ⟨ok.mem, hm, hunit ▸ ok.unit, ok.head, hunit ▸ ok.tail⟩

theorem Steady.of_same (i : Steady C rbs rem s) {ram : Ram σ} {cur : Buf} {bufs : List Buf} {dettached : List Nat}
    (pool : C.Inv ram (s.rbuf.buf.held + (cur.held + (heldBy bufs + (dettached : Multiset Nat)))))
    (same : ∀ id m, s.rbuf.buf.mem = some id → s.ram.heap id = some m → ∃ m', ram.heap id = some m' ∧ m'.unit = m.unit) :
    Steady C rbs rem { s with ram := ram, cur := cur, bufs := bufs, dettached := dettached } ∧
      Beside s { s with ram := ram, cur := cur, bufs := bufs, dettached := dettached } := by
  obtain ⟨id, m, ok⟩ := i.block
  obtain ⟨m', hm', hunit⟩ := same id m ok.mem ok.live
  have ok' := Ok.of_unit ok hm' hunit
  refine ⟨⟨pool, ⟨id, m', ok'⟩, i.default, i.remaining⟩, rfl, rfl, rfl, rfl, rfl, ?_⟩
  change ram.unitAt s.rbuf.buf = s.ram.unitAt s.rbuf.buf
  rw [ok'.unitAt, ok.unitAt, hunit]

theorem Steady.keep (i : Steady C rbs rem s) : Steady C rbs rem (s.use P .keep) ∧ Beside s (s.use P .keep) := by
  have hpool := i.pool
  rw [rest, add_left_comm] at hpool
  obtain ⟨hcopy, same⟩ := C.copy_spec hpool
  have hheld := Buf.copy_held s.ram s.cur
  have hkept : C.Inv (Buf.copy s.ram s.cur).2 (s.rbuf.buf.held + (s.cur.held +
      (heldBy ((Buf.copy s.ram s.cur).1 :: s.bufs) + (s.dettached : Multiset Nat)))) := by
    rw [hheld] at hcopy
    rw [heldBy_cons, hheld, add_assoc, add_left_comm, add_left_comm s.rbuf.buf.held]
    exact hcopy
  refine i.of_same hkept fun id m hid hm => ?_
  have hin : id ∈ s.rbuf.buf.held + (heldBy s.bufs + (s.dettached : Multiset Nat)) :=
    Multiset.mem_add.mpr (Or.inl (Buf.mem_held hid))
  exact (same id (Multiset.mem_add.mpr (Or.inr hin))).unit hm

theorem Steady.vars (i : Steady C rbs rem s) (op : BufOp) :
    Steady C rbs rem (s.use P (.vars op)) ∧ Beside s (s.use P (.vars op)) := by
  simp only [ReceiverUDP.use]
  split
  next => exact ⟨i, Beside.refl s⟩
  next t ht =>
    have hpool : C.Inv s.ram ((⟨s.ram, s.bufs, s.dettached⟩ : BufVars σ).holders + (s.rbuf.buf.held + s.cur.held)) := by
      have h := i.pool
      rw [rest, ← add_assoc, add_comm] at h
      exact h
    obtain ⟨hinv, hframe⟩ := bufVars_step_frame C hpool ht
    refine i.of_same ?_ fun id m hid hm => ?_
    · rw [← add_assoc, add_comm]
      exact hinv
    · exact (hframe id (Multiset.mem_add.mpr (Or.inl (Buf.mem_held hid)))).1.unit hm

theorem Steady.write (i : Steady C rbs rem s) (j pos : Nat) (data : List UInt8) :
    Steady C rbs rem (s.use P (.write j pos data)) ∧ Beside s (s.use P (.write j pos data)) := by
  simp only [ReceiverUDP.use]
  split
  next => exact ⟨i, Beside.refl s⟩
  next id hid =>
    split
    next => exact ⟨i, Beside.refl s⟩
    next =>
      obtain ⟨b, hb, hbm⟩ := Option.bind_eq_some_iff.mp hid
      have hin : id ∈ s.rbuf.buf.held + s.rest :=
        Multiset.mem_add.mpr (Or.inr (Multiset.mem_add.mpr (Or.inr (Multiset.mem_add.mpr
          (Or.inl (mem_heldBy (List.mem_of_getElem? hb) hbm))))))
      refine i.of_same (C.store pos data i.pool hin) fun k m _ hm => ?_
      by_cases he : k = id
      · subst he
        exact ⟨_, Heap.store_self hm pos data, rfl⟩
      · exact ⟨m, (Heap.store_of_ne _ he pos data).trans hm, rfl⟩

theorem Steady.use (i : Steady C rbs rem s) (u : UdpUse) : Steady C rbs rem (s.use P u) ∧ Beside s (s.use P u) := by
  cases u with
  | keep => exact i.keep
  | swap j =>
    simp only [ReceiverUDP.use]
    split
    next => exact ⟨i, Beside.refl s⟩
    next b hb =>
      obtain ⟨hsplit, hset⟩ := heldBy_split hb
      refine i.of_same ?_ fun id m _ hm => ⟨m, hm, rfl⟩
      have hpool := i.pool
      rw [rest, hsplit] at hpool
      rw [hset s.cur, add_assoc, add_left_comm b.held]
      rwa [add_assoc] at hpool
  | vars op => exact i.vars op
  | write j pos data => exact i.write j pos data

theorem Steady.uses (i : Steady C rbs rem s) (us : List UdpUse) :
    Steady C rbs rem (s.uses P us) ∧ Beside s (s.uses P us) := by
  induction us generalizing s with
  | nil => exact ⟨i, Beside.refl s⟩
  | cons u us ih =>
    obtain ⟨hi, hb⟩ := i.use u
    obtain ⟨hi', hb'⟩ := ih hi
    exact ⟨hi', hb.trans hb'⟩

/-- Between two calls of `_on_recv` the buffer is drained. -/
structure Drained (C : PoolContract P) (rbs rem : Nat) (s : ReceiverUDP σ S) : Prop where
  steady : Steady C rbs rem s
  level : s.rbuf.head = s.rbuf.tail
  cur : s.cur = Buf.null

theorem Drained.moveTail (d : Drained C rbs rem s) {ram : Ram σ} {id n : Nat} {m : Mem} (ok : s.rbuf.Ok ram id m)
    (hfit : s.rbuf.tail + n ≤ m.unit) :
    (s.rbuf.moveTail n).Ok ram id m ∧ (s.rbuf.moveTail n).dataLen = n := by
  have okt : (s.rbuf.moveTail n).Ok ram id m := ⟨ok.mem, ok.live, ok.unit, Nat.le_add_right_of_le ok.head, hfit⟩
  refine ⟨okt, ?_⟩
  rw [okt.dataLen_eq]
  have hlevel := d.level
  change s.rbuf.tail + n - s.rbuf.head = n
  omega

theorem fill_spec (d : Drained C rbs rem s) {c : Completion S} (hroom : c.data.length ≤ s.rbuf.remainLen s.ram) :
    ∃ id m, s.rbuf.Ok (s.fill c).ram id m ∧ s.rbuf.tail + c.data.length ≤ m.unit ∧
      C.Inv (s.fill c).ram (s.rbuf.buf.held + s.rest) ∧ Bytes.readAt m.bytes s.rbuf.tail c.data.length = c.data ∧
      s.fill c = { s with ram := (s.fill c).ram, clientAddr := c.sender.getD s.clientAddr } := by
  obtain ⟨id, m, ok⟩ := d.steady.block
  have hin : id ∈ s.rbuf.buf.held + s.rest := Multiset.mem_add.mpr (Or.inl (by simp [ok.held_eq]))
  have hfill : s.fill c = { s with ram := s.ram.store id s.rbuf.tail c.data, clientAddr := c.sender.getD s.clientAddr } := by
    simp [fill, ok.mem]
  have hm := Heap.store_self ok.live s.rbuf.tail c.data
  rw [ok.remainLen_eq] at hroom
  have htail := ok.tail
  rw [hfill]
  refine ⟨id, { m with bytes := Bytes.writeAt m.bytes s.rbuf.tail c.data }, Ok.of_unit ok hm rfl, ?_,
    C.store _ _ d.steady.pool hin, Bytes.readAt_writeAt_same m.bytes s.rbuf.tail c.data, rfl⟩
  change s.rbuf.tail + c.data.length ≤ m.unit
  omega

theorem called_eq (s : ReceiverUDP σ S) {ram : Ram σ} (err bytes : Nat) (us : List UdpUse)
    (hcopy : Buf.copy s.ram s.rbuf.buf = (s.rbuf.buf, ram)) :
    s.called P addr err bytes us = ({ s with
      ram := ram
      rbuf := s.rbuf.moveTail bytes
      isReceiving := false
      cur := { s.rbuf.buf with buf := s.rbuf.head, len := (s.rbuf.moveTail bytes).dataLen }
      errors := if err ≠ 0 then s.errors ++ [err] else s.errors
      calls := s.calls ++ [(ram.loadAt s.rbuf.buf s.rbuf.head (s.rbuf.moveTail bytes).dataLen, addr s.clientAddr)]
      } : ReceiverUDP σ S).uses P us := by
  unfold called
  split
  all_goals
    simp only [RBuf.copyBuf, RBuf.moveTail, hcopy]
    rfl

/-- The call of `on_recv`: with the bytes of the completion, and the sender stored last. -/
theorem called_spec (d : Drained C rbs rem s) {c : Completion S} (hroom : c.data.length ≤ s.rbuf.remainLen s.ram)
    (err : Nat) (us : List UdpUse) :
    Steady C rbs rem ((s.fill c).called P addr err c.data.length us) ∧
      ((s.fill c).called P addr err c.data.length us).rbuf = s.rbuf.moveTail c.data.length ∧
      ((s.fill c).called P addr err c.data.length us).clientAddr = c.sender.getD s.clientAddr ∧
      ((s.fill c).called P addr err c.data.length us).posts = s.posts ∧
      ((s.fill c).called P addr err c.data.length us).calls =
        s.calls ++ [(c.data, addr (c.sender.getD s.clientAddr))] := by
  obtain ⟨id, m, ok, hfit, hpool, hread, hfill⟩ := fill_spec d hroom
  obtain ⟨okt, hlen⟩ := d.moveTail ok hfit
  obtain ⟨hcopy, hsame⟩ := C.copy_spec hpool
  have hbuf : Buf.copy (s.fill c).ram s.rbuf.buf = (s.rbuf.buf, (s.fill c).ram.addRef id) := by
    simp [Buf.copy, ok.mem]
  rw [hbuf] at hcopy hsame
  have hmem : id ∈ s.rbuf.buf.held + s.rest := Multiset.mem_add.mpr (Or.inl (by simp [ok.held_eq]))
  obtain ⟨m', okc, _, hbytes⟩ := okt.of_same (hsame id hmem)
  generalize hstart : ({ s with
    ram := (s.fill c).ram.addRef id
    rbuf := s.rbuf.moveTail c.data.length
    clientAddr := c.sender.getD s.clientAddr
    isReceiving := false
    cur := ⟨s.rbuf.buf.mem, s.rbuf.head, c.data.length⟩
    errors := if err ≠ 0 then s.errors ++ [err] else s.errors
    calls := s.calls ++ [(c.data, addr (c.sender.getD s.clientAddr))] } : ReceiverUDP σ S) = t
  have hcalled : (s.fill c).called P addr err c.data.length us = t.uses P us := by
    have hload : ((s.fill c).ram.addRef id).loadAt s.rbuf.buf s.rbuf.head c.data.length = c.data := by
      have h := okc.loadAt s.rbuf.head c.data.length
      rw [hbytes, d.level, hread] at h
      rw [d.level]
      exact h
    rw [hfill, called_eq _ err c.data.length us hbuf, ← hstart]
    simp only [hlen, hload]
  have hsteady : Steady C rbs rem t := by
    rw [← hstart]
    refine ⟨?_, ⟨id, m', okc⟩, d.steady.default, d.steady.remaining⟩
    have hrest : s.rest = heldBy s.bufs + (s.dettached : Multiset Nat) := by simp [rest, d.cur]
    rw [hrest] at hcopy
    exact hcopy
  obtain ⟨hu, hb⟩ := hsteady.uses us
  rw [hcalled]
  refine ⟨hu, hb.rbuf.trans ?_, hb.clientAddr.trans ?_, hb.posts.trans ?_, hb.calls.trans ?_⟩
  all_goals rw [← hstart]

/-- The window of the receive buffer. -/
def window (s : ReceiverUDP σ S) : Window :=
  ⟨s.rbuf.head, s.rbuf.tail, s.rbuf.remainLen s.ram, s.ram.unitAt s.rbuf.buf⟩

theorem recv_leaves (s : ReceiverUDP σ S) (fail : Option Nat) :
    s.recv fail = { s with
      isReceiving := (s.recv fail).isReceiving
      posts := s.posts ++ [s.window]
      errors := (s.recv fail).errors } := by
  cases fail with
  | none => rfl
  | some err => rfl

/-- The rest of `_on_recv`, when `on_recv` was called with all the buffered bytes. -/
theorem afterCall_spec (hu : C.Units32) (hsize : rbs < 4294967296) (i : Steady C rbs rem s) {rlen : Nat}
    (hlen : s.rbuf.head + rlen = s.rbuf.tail) (fail : Option Nat) :
    Drained C rbs rem (s.afterCall P rlen fail) ∧ (s.afterCall P rlen fail).clientAddr = s.clientAddr ∧
      (s.afterCall P rlen fail).calls = s.calls ∧
      (s.afterCall P rlen fail).posts = s.posts ++ [(s.afterCall P rlen fail).window] ∧
      ((∀ size, size < 4294967296 → rem < (P.get s.ram size).1.len) →
        rem < (s.afterCall P rlen fail).rbuf.remainLen (s.afterCall P rlen fail).ram) := by
  obtain ⟨id, m, ok⟩ := i.block
  have okh : (s.rbuf.moveHead rlen).Ok s.ram id m := ⟨ok.mem, ok.live, ok.unit, Nat.le_of_eq hlen, ok.tail⟩
  have hempty : (s.rbuf.moveHead rlen).dataLen = 0 := by
    rw [okh.dataLen_eq]
    change s.rbuf.tail - (s.rbuf.head + rlen) = 0
    omega
  have hdef : (s.rbuf.moveHead rlen).defaultSize = rbs := i.default
  have ha := RBuf.checkArrange_spec C hu okh i.pool (by rw [hdef]; exact hsize)
  obtain ⟨id', m', ok', _, _⟩ := ha.ok
  obtain ⟨hinv, hsame⟩ := C.destroy_spec (H := (RBuf.checkArrange P s.ram (s.rbuf.moveHead rlen)).1.buf.held +
    (heldBy s.bufs + (s.dettached : Multiset Nat))) (by rw [add_left_comm]; exact ha.inv)
  obtain ⟨n, okn, hunit, _⟩ := ok'.of_same (hsame id' (Multiset.mem_add.mpr (Or.inl (by simp [ok'.held_eq]))))
  generalize hb : (RBuf.checkArrange P s.ram (s.rbuf.moveHead rlen)).1 = b at *
  generalize hr : (RBuf.checkArrange P s.ram (s.rbuf.moveHead rlen)).2.1 = r at *
  have hlevel : b.head = b.tail := by
    have h := ok'.dataLen_eq
    rw [ha.len, hempty] at h
    have := ok'.head
    omega
  have hafter : s.afterCall P rlen fail = { s with
      rbuf := b
      ram := Buf.destroy P r s.cur
      cur := Buf.null
      isReceiving := (recv { s with rbuf := b, ram := r, isReceiving := false } fail).isReceiving
      posts := s.posts ++ [⟨b.head, b.tail, b.remainLen r, r.unitAt b.buf⟩]
      errors := (recv { s with rbuf := b, ram := r, isReceiving := false } fail).errors } := by
    unfold afterCall
    simp only [hb, hr]
    rw [recv_leaves]
    rfl
  rw [hafter]
  refine ⟨⟨⟨?_, ⟨id', n, okn⟩, ha.default.trans hdef, ha.remaining.trans i.remaining⟩, hlevel, rfl⟩, rfl, rfl, ?_, ?_⟩
  · change C.Inv (Buf.destroy P r s.cur) (b.buf.held + (0 + (heldBy s.bufs + (s.dettached : Multiset Nat))))
    rw [zero_add]
    exact hinv
  · change s.posts ++ _ = s.posts ++ [⟨b.head, b.tail, b.remainLen (Buf.destroy P r s.cur), _⟩]
    rw [okn.remainLen_eq, ok'.remainLen_eq, hunit, ok'.unitAt]
    change _ = s.posts ++ [⟨b.head, b.tail, m'.unit - b.tail, (Buf.destroy P r s.cur).unitAt b.buf⟩]
    rw [okn.unitAt, hunit]
  · intro hlarge
    change rem < b.remainLen (Buf.destroy P r s.cur)
    rw [okn.remainLen_eq, hunit, ← ok'.remainLen_eq, ← hb, ← hr]
    have hroom := RBuf.checkArrange_remaining C hu okh i.pool (by rw [hdef]; exact hsize) hempty (by
      intro size hlt
      change s.rbuf.remainingSizeToExchange < _
      rw [i.remaining]
      exact hlarge size hlt)
    have hrem : (s.rbuf.moveHead rlen).remainingSizeToExchange = rem := i.remaining
    rwa [hrem] at hroom

theorem Drained.use (d : Drained C rbs rem s) {u : UdpUse} (hu : u.ofCall = false) : Drained C rbs rem (s.use P u) := by
  obtain ⟨hi, hb⟩ := d.steady.use u
  refine ⟨hi, by rw [hb.rbuf]; exact d.level, ?_⟩
  cases u with
  | keep => cases hu
  | swap j => cases hu
  | vars op =>
    simp only [ReceiverUDP.use]
    split
    next => exact d.cur
    next => exact d.cur
  | write j pos data =>
    simp only [ReceiverUDP.use]
    split
    next => exact d.cur
    next =>
      split
      next => exact d.cur
      next => exact d.cur

/-- A completion is given to `on_recv` once, and the next window is posted behind it. -/
structure Turned (C : PoolContract P) (addr : S → Addr) (rbs rem : Nat) (s : ReceiverUDP σ S) (c : Completion S)
    (t : ReceiverUDP σ S) : Prop where
  drained : Drained C rbs rem t
  clientAddr : t.clientAddr = c.sender.getD s.clientAddr
  calls : t.calls = s.calls ++ [(c.data, addr (c.sender.getD s.clientAddr))]
  posts : t.posts = s.posts ++ [t.window]
  room : (∀ r H size, C.Inv r H → size < 4294967296 → rem < (P.get r size).1.len) → rem < t.rbuf.remainLen t.ram

theorem Drained.complete (hu : C.Units32) (hsize : rbs < 4294967296) (d : Drained C rbs rem s) {c : Completion S}
    {us : List UdpUse} {fail : Option Nat} (hs : s.step P addr (.complete c us fail) = some s') :
    Turned C addr rbs rem s c s' := by
  simp only [ReceiverUDP.step] at hs
  split at hs
  next => cases hs
  next hok =>
    cases Option.some.inj hs
    obtain ⟨_, hroom, _⟩ := not_or.mp hok |>.imp_right not_or.mp
    have hroom := Nat.le_of_not_lt hroom
    obtain ⟨id, m, ok, hfit, _, _, hfill⟩ := fill_spec d hroom
    obtain ⟨hi, hrbuf, haddr, hposts, hcalls⟩ := called_spec d hroom c.err us
    have hfrbuf : (s.fill c).rbuf = s.rbuf := by rw [hfill]
    obtain ⟨_, hlen⟩ := d.moveTail ok hfit
    unfold _on_recv
    rw [hfrbuf, hlen]
    obtain ⟨hd, haddr', hcalls', hposts', hrem⟩ := afterCall_spec hu hsize hi
      (by rw [hrbuf]; change s.rbuf.head + _ = s.rbuf.tail + _; rw [d.level]) fail
    exact ⟨hd, haddr'.trans haddr, hcalls'.trans (by rw [hcalls]), hposts'.trans (by rw [hposts]),
      fun hlarge => hrem fun size hlt => hlarge _ _ size hi.pool hlt⟩

theorem init_spec (hu : C.Units32) (hsize : rbs < 4294967296) (rem : Nat) {ram : Ram σ} {bufs : List Buf} {dettached : List Nat}
    (hinit : C.Inv ram (heldBy bufs + (dettached : Multiset Nat))) (client : S) (fail : Option Nat) :
    Drained C rbs rem (init P ram bufs dettached client rbs rem fail) ∧
      (init P ram bufs dettached client rbs rem fail).clientAddr = client ∧
      (init P ram bufs dettached client rbs rem fail).calls = [] ∧
      (init P ram bufs dettached client rbs rem fail).posts = [(init P ram bufs dettached client rbs rem fail).window] ∧
      (init P ram bufs dettached client rbs rem fail).rbuf.remainLen (init P ram bufs dettached client rbs rem fail).ram =
        (P.get ram rbs).1.len := by
  obtain ⟨id, m, ok, hunit, _, _, hhead, htail, hinv, _⟩ := RBuf.init_spec C hu (b := RBuf.null) rem rfl hinit hsize
  have hstart : init P ram bufs dettached client rbs rem fail =
      recv ⟨(RBuf.null.init P ram rbs rem).2, (RBuf.null.init P ram rbs rem).1, client, false, Buf.null, bufs, dettached,
        [], [], []⟩ fail := rfl
  rw [hstart, recv_leaves]
  refine ⟨⟨⟨?_, ⟨id, m, ok⟩, rfl, rfl⟩, hhead.trans htail.symm, rfl⟩, rfl, rfl, rfl, ?_⟩
  · rw [rest]
    change C.Inv _ (_ + (0 + (heldBy bufs + (dettached : Multiset Nat))))
    rw [zero_add]
    exact hinv
  · change (RBuf.null.init P ram rbs rem).1.remainLen (RBuf.null.init P ram rbs rem).2 = _
    rw [ok.remainLen_eq, htail, hunit, Nat.sub_zero]

/-- The window lies inside its block and has room for a datagram of up to `r` bytes. -/
def Fits (r : Nat) (w : Window) : Prop := w.head = w.tail ∧ w.tail + w.len ≤ w.unit ∧ r < w.len

theorem Drained.window_fits (d : Drained C rbs rem s) (hroom : rem < s.rbuf.remainLen s.ram) : Fits rem s.window := by
  obtain ⟨id, m, ok⟩ := d.steady.block
  have htail := ok.tail
  refine ⟨d.level, ?_, hroom⟩
  change s.rbuf.tail + s.rbuf.remainLen s.ram ≤ s.ram.unitAt s.rbuf.buf
  rw [ok.remainLen_eq, ok.unitAt]
  omega

/-- Every window posted so far fits, and so does the one in which the buffer stands. -/
structure Windows (C : PoolContract P) (rbs rem : Nat) (s : ReceiverUDP σ S) : Prop where
  drained : Drained C rbs rem s
  room : rem < s.rbuf.remainLen s.ram
  posted : ∀ w ∈ s.posts, Fits rem w

theorem Windows.post (drained : Drained C rbs rem s') (room : rem < s'.rbuf.remainLen s'.ram)
    (hposted : ∀ w ∈ s.posts, Fits rem w) (hposts : s'.posts = s.posts ++ [s'.window]) : Windows C rbs rem s' := by
  refine ⟨drained, room, fun w hw => ?_⟩
  rw [hposts] at hw
  rcases List.mem_append.mp hw with hold | hnew
  · exact hposted w hold
  · cases List.mem_singleton.mp hnew
    exact drained.window_fits room

theorem Windows.step (hu : C.Units32) (hsize : rbs < 4294967296)
    (hlarge : ∀ r H size, C.Inv r H → size < 4294967296 → rem < (P.get r size).1.len) (i : Windows C rbs rem s)
    {op : ReceiveOp S} (hs : s.step P addr op = some s') : Windows C rbs rem s' := by
  cases op with
  | use u =>
    simp only [ReceiverUDP.step] at hs
    split at hs
    next => cases hs
    next hcall =>
      cases Option.some.inj hs
      obtain ⟨_, hb⟩ := i.drained.steady.use u
      refine ⟨i.drained.use (Bool.eq_false_of_not_eq_true hcall), ?_, hb.posts ▸ i.posted⟩
      have hroom := i.room
      unfold RBuf.remainLen at hroom ⊢
      rwa [hb.rbuf, hb.unit]
  | complete c us fail =>
    have ht := i.drained.complete hu hsize hs
    exact Windows.post ht.drained (ht.room hlarge) i.posted ht.posts

/-- At every `recv` the window fits, and no datagram of up to `rem` bytes finds it too short. -/
theorem posted_windows_fit (C : PoolContract P) (hu : C.Units32) (addr : S → Addr) (hsize : rbs < 4294967296)
    (hlarge : ∀ r H size, C.Inv r H → size < 4294967296 → rem < (P.get r size).1.len) {ram : Ram σ} {bufs : List Buf}
    {dettached : List Nat} (hinit : C.Inv ram (heldBy bufs + (dettached : Multiset Nat))) {client : S}
    {fail : Option Nat} {ops : List (ReceiveOp S)} {s : ReceiverUDP σ S}
    (run : Machine.exec (ReceiverUDP.step P addr) (init P ram bufs dettached client rbs rem fail) ops = some s) :
    (∀ w ∈ s.posts, Fits rem w) ∧ Fits rem s.window ∧
      ∀ data sender us next, s.isReceiving = true → data.length ≤ rem →
        (s.step P addr (.complete (.datagram data sender) us next)).isSome := by
  obtain ⟨hd, _, _, hposts, hroom⟩ := init_spec hu hsize rem hinit client fail
  have hstart : Windows C rbs rem (init P ram bufs dettached client rbs rem fail) :=
    Windows.post (s := { init P ram bufs dettached client rbs rem fail with posts := [] }) hd
      (by rw [hroom]; exact hlarge _ _ rbs hinit hsize) (fun w hw => by cases hw) hposts
  have h : Windows C rbs rem s := Machine.exec_invariant (fun _ _ _ i hs => i.step hu hsize hlarge hs) hstart run
  refine ⟨h.posted, h.drained.window_fits h.room, fun data sender us next hr hdata => ?_⟩
  have hroom := h.room
  have hlen : ¬s.rbuf.remainLen s.ram < (Completion.datagram data sender).data.length := by
    change ¬s.rbuf.remainLen s.ram < data.length
    omega
  rw [ReceiverUDP.step, if_neg]
  · rfl
  · rintro (hoff | hshort | ⟨hfailed, _⟩)
    · exact hoff hr
    · exact hlen hshort
    · cases hfailed

theorem memPool_larger {units : List Nat} (hunits : ∀ u ∈ units, rem < u) (hne : units ≠ []) (born : Nat → Option Nat) :
    ∀ r H size, (memPool_contract units born).Inv r H → size < 4294967296 → rem < (memPool.get r size).1.len := by
  intro r H size hi _
  obtain ⟨id, m, hb, _, _, hfor, _⟩ := MemPool.Inv.get_spec hi size
  change rem < (MemPool.get r size).1.len
  rw [hb]
  change rem < m.unit
  unfold MemPool.UnitFor at hfor
  split at hfor
  next => exact hunits _ hfor.1
  next hover =>
    obtain ⟨u, hmem⟩ := List.exists_mem_of_ne_nil units hne
    have hlt := hunits u hmem
    have hbig : ¬size ≤ u := fun hle => hover ⟨u, hmem, hle⟩
    omega

/-- The second datagram finds the window renewed. -/
theorem posted_windows_fit_sample :
    ∃ s, Machine.exec (ReceiverUDP.step memPool fun port : UInt16 => ⟨[49], port, by decide, by decide⟩)
      (init memPool (MemPool.init ⟨[8, 32], fun _ => ⟨1, 1⟩, by decide⟩) [] [] 0 8 4 none)
      [.complete (.datagram [1, 2, 3, 4, 5] 7) [.keep] none, .complete (.datagram [6] 7) [] none] = some s ∧
      ∀ w ∈ s.posts, Fits 4 w := by
  have run : ∃ s, Machine.exec (ReceiverUDP.step memPool fun port : UInt16 => ⟨[49], port, by decide, by decide⟩)
      (init memPool (MemPool.init ⟨[8, 32], fun _ => ⟨1, 1⟩, by decide⟩) [] [] 0 8 4 none)
      [.complete (.datagram [1, 2, 3, 4, 5] 7) [.keep] none, .complete (.datagram [6] 7) [] none] = some s :=
    ⟨_, rfl⟩
  obtain ⟨s, run⟩ := run
  have hinit : (memPool_contract (MemPool.configured ⟨[8, 32], fun _ => ⟨1, 1⟩, by decide⟩) fun _ => none).Inv
      (MemPool.init ⟨[8, 32], fun _ => ⟨1, 1⟩, by decide⟩) (heldBy [] + (([] : List Nat) : Multiset Nat)) :=
    MemPool.inv_init (by decide)
  have h := posted_windows_fit _ (memPool_units32 (by decide) _) _ (by decide) (memPool_larger (by decide) (by decide) _)
    hinit run
  exact ⟨s, run, h.1⟩

end ReceiverUDP

end Ven
