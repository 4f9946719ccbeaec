import Ven.UdpWindow

namespace Ven

namespace ReceiveOp

variable {S : Type}

/-- What `on_recv` owes to a completion: the datagram and who sent it. -/
def datagram (addr : S → Addr) : ReceiveOp S → Option (List UInt8 × Addr)
  | .use _ => none
  | .complete (.datagram data sender) _ _ => some (data, addr sender)
  | .complete (.failed _ _ _) _ _ => none

def isFailed : ReceiveOp S → Bool
  | .use _ => false
  | .complete c _ _ => c.isFailed

end ReceiveOp

namespace ReceiverUDP

variable {σ S : Type} {P : IMemPool σ} {C : PoolContract P} {addr : S → Addr} {rbs rem : Nat}
  {s s' : ReceiverUDP σ S} {ops : List (ReceiveOp S)}

/-- The datagrams of the successful completions, each with its sender. -/
def delivered (addr : S → Addr) (ops : List (ReceiveOp S)) : List (List UInt8 × Addr) :=
  ops.filterMap (ReceiveOp.datagram addr)

/-- What one step adds to the calls: what it owes, or a call for a completion that reports an error. -/
theorem Drained.step (hu : C.Units32) (hsize : rbs < 4294967296) (d : Drained C rbs rem s) {op : ReceiveOp S}
    (hs : s.step P addr op = some s') :
    Drained C rbs rem s' ∧ ∃ x, s'.calls = s.calls ++ x ∧
      (op.isFailed = false → x = (op.datagram addr).toList) ∧
      (op.isFailed = true → op.datagram addr = none ∧ x.length = 1) := by
  cases op with
  | use u =>
    simp only [ReceiverUDP.step] at hs
    split at hs
    next => cases hs
    next hcall =>
      cases Option.some.inj hs
      obtain ⟨_, hb⟩ := d.steady.use u
      refine ⟨d.use (Bool.eq_false_of_not_eq_true hcall), [], ?_, fun _ => rfl, fun h => by cases h⟩
      rw [hb.calls, List.append_nil]
  | complete c us fail =>
    have ht := d.complete hu hsize hs
    refine ⟨ht.drained, _, ht.calls, fun hok => ?_, fun hbad => ?_⟩
    · cases c with
      | datagram data sender => rfl
      | failed err data sender => cases hok
    · cases c with
      | datagram data sender => cases hbad
      | failed err data sender => exact ⟨rfl, rfl⟩

/-- A run without failed completions calls `on_recv` with the datagrams received. -/
theorem Drained.calls_eq (hu : C.Units32) (hsize : rbs < 4294967296) (d : Drained C rbs rem s)
    (hok : ∀ op ∈ ops, op.isFailed = false) (run : Machine.exec (ReceiverUDP.step P addr) s ops = some s') :
    s'.calls = s.calls ++ delivered addr ops := by
  induction ops generalizing s with
  | nil =>
    cases Option.some.inj run
    exact (List.append_nil _).symm
  | cons op ops ih =>
    obtain ⟨mid, hmid, run⟩ := Option.bind_eq_some_iff.mp run
    obtain ⟨hd, x, hcalls, hx, _⟩ := d.step hu hsize hmid
    rw [ih hd (fun o ho => hok o (List.mem_cons_of_mem op ho)) run, hcalls, hx (hok op List.mem_cons_self),
      List.append_assoc]
    unfold delivered
    cases hop : op.datagram addr with
    | none => rw [List.filterMap_cons_none hop]; rfl
    | some call => rw [List.filterMap_cons_some hop]; rfl

/-- Every completion is a call of `on_recv`, also a failed one. -/
theorem Drained.length_calls (hu : C.Units32) (hsize : rbs < 4294967296) (d : Drained C rbs rem s)
    (run : Machine.exec (ReceiverUDP.step P addr) s ops = some s') :
    s'.calls.length = s.calls.length + (delivered addr ops).length + (ops.filter ReceiveOp.isFailed).length := by
  induction ops generalizing s with
  | nil =>
    cases Option.some.inj run
    rfl
  | cons op ops ih =>
    obtain ⟨mid, hmid, run⟩ := Option.bind_eq_some_iff.mp run
    obtain ⟨hd, x, hcalls, hok, hbad⟩ := d.step hu hsize hmid
    rw [ih hd run, hcalls, List.length_append]
    unfold delivered
    cases hf : op.isFailed with
    | false =>
      have hx := hok hf
      rw [List.filter_cons_of_neg (by rw [hf]; exact Bool.false_ne_true), hx]
      cases hop : op.datagram addr with
      | none =>
        rw [List.filterMap_cons_none hop]
        rfl
      | some call =>
        rw [List.filterMap_cons_some hop, List.length_cons, Option.toList_some, List.length_singleton]
        omega
    | true =>
      obtain ⟨hnone, hone⟩ := hbad hf
      rw [List.filter_cons_of_pos hf, List.filterMap_cons_none hnone, List.length_cons]
      omega

/-- `on_recv` is called with every datagram, whole and with its sender, and with nothing else, exactly in the runs
in which no completion reports an error. -/
theorem datagrams_delivered_iff (C : PoolContract P) (hu : C.Units32) (addr : S → Addr) (hsize : rbs < 4294967296)
    {ram : Ram σ} {bufs : List Buf} {dettached : List Nat}
    (hinit : C.Inv ram (heldBy bufs + (dettached : Multiset Nat))) {client : S} {fail : Option Nat}
    (run : Machine.exec (ReceiverUDP.step P addr) (init P ram bufs dettached client rbs rem fail) ops = some s) :
    s.calls = delivered addr ops ↔ ∀ op ∈ ops, op.isFailed = false := by
  obtain ⟨hd, _, hcalls, _⟩ := init_spec hu hsize rem hinit client fail
  constructor
  · intro h
    have hlen := hd.length_calls hu hsize run
    rw [h, hcalls, List.length_nil] at hlen
    have hnone : ops.filter ReceiveOp.isFailed = [] := List.length_eq_zero_iff.mp (by omega)
    intro op hop
    exact Bool.eq_false_of_not_eq_true (List.filter_eq_nil_iff.mp hnone op hop)
  · intro hok
    rw [hd.calls_eq hu hsize hok run, hcalls, List.nil_append]

/-- Two datagrams, the second of them empty. -/
theorem datagrams_delivered_sample :
    ∃ s, Machine.exec (ReceiverUDP.step memPool fun port : UInt16 => ⟨[49], port, by decide, by decide⟩)
      (init memPool (MemPool.init ⟨[8, 32], fun _ => ⟨1, 1⟩, by decide⟩) [] [] 0 8 4 none)
      [.complete (.datagram [1, 2, 3] 7) [] none, .complete (.datagram [] 9) [] none] = some s ∧
      s.calls = [([1, 2, 3], ⟨[49], 7, by decide, by decide⟩), ([], ⟨[49], 9, by decide, by decide⟩)] := by
  have run : ∃ s, Machine.exec (ReceiverUDP.step memPool fun port : UInt16 => ⟨[49], port, by decide, by decide⟩)
      (init memPool (MemPool.init ⟨[8, 32], fun _ => ⟨1, 1⟩, by decide⟩) [] [] 0 8 4 none)
      [.complete (.datagram [1, 2, 3] 7) [] none, .complete (.datagram [] 9) [] none] = some s := ⟨_, rfl⟩
  obtain ⟨s, run⟩ := run
  have hinit : (memPool_contract (MemPool.configured ⟨[8, 32], fun _ => ⟨1, 1⟩, by decide⟩) fun _ => none).Inv
      (MemPool.init ⟨[8, 32], fun _ => ⟨1, 1⟩, by decide⟩) (heldBy [] + (([] : List Nat) : Multiset Nat)) :=
    MemPool.inv_init (by decide)
  have hok := (datagrams_delivered_iff _ (memPool_units32 (by decide) _) _ (by decide) hinit run).mpr
  exact ⟨s, run, hok (by simp [ReceiveOp.isFailed, Completion.isFailed])⟩

/-- A datagram cut at the end of the window, then a receive that fails with nothing stored: `on_recv` gets the
piece, and an empty datagram from the sender before. -/
theorem errors_reach_on_recv :
    ∃ s, Machine.exec (ReceiverUDP.step memPool fun port : UInt16 => ⟨[49], port, by decide, by decide⟩)
      (init memPool (MemPool.init ⟨[4], fun _ => ⟨1, 1⟩, by decide⟩) [] [] 0 4 0 none)
      [.complete (.failed 234 [1, 2, 3, 4] (some 7)) [] none, .complete (.failed 1234 [] none) [] none] = some s ∧
      s.calls = [([1, 2, 3, 4], ⟨[49], 7, by decide, by decide⟩), ([], ⟨[49], 7, by decide, by decide⟩)] ∧
      delivered (fun port : UInt16 => ⟨[49], port, by decide, by decide⟩)
        [.complete (.failed 234 [1, 2, 3, 4] (some 7)) [] none, .complete (.failed 1234 [] none) [] none] = [] :=
  ⟨_, rfl, rfl, rfl⟩

end ReceiverUDP

end Ven
