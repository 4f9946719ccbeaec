import Ven.UnorderedMap

namespace Ven

/-- `ip` are the characters of `ip_` before its terminating zero. -/
structure Addr where
  ip : List UInt8
  port : UInt16
  short : ip.length < 16
  terminated : 0 ∉ ip
deriving DecidableEq

/-- An `Addr` somewhere in memory: `loc` is where its `ip_` begins. -/
structure AddrObj where
  loc : UInt64
  addr : Addr
deriving DecidableEq

/-- `std::hash` of a pointer and of a `size_t`, and how `std::unordered_map` lays out its buckets. -/
structure StdHash where
  pointer : UInt64 → UInt64
  size : UInt64 → UInt64
  index : Nat → UInt64 → Nat
  first : Nat
  grow : Nat → Nat → Nat

/-- `std::hash<const char*>` hashes the pointer, not the characters. -/
def AddrHash (std : StdHash) (a : AddrObj) : UInt64 := std.size (std.pointer a.loc + a.addr.port.toUInt64)

def AddrEqualTo (a b : AddrObj) : Bool := a.addr.port == b.addr.port && a.addr.ip == b.addr.ip

/-- The functors of `AddrUnorderedMap`. -/
def addrHashing (std : StdHash) : Hashing AddrObj UInt64 where
  hash := AddrHash std
  equal := AddrEqualTo
  index := std.index
  first := std.first
  grow := std.grow

theorem addrEqualTo_iff {a b : AddrObj} : AddrEqualTo a b = true ↔ a.addr = b.addr := by
  obtain ⟨l, ⟨ip, port, short, terminated⟩⟩ := a
  obtain ⟨l', ⟨ip', port', short', terminated'⟩⟩ := b
  simp only [AddrEqualTo, Bool.and_eq_true, beq_iff_eq, Addr.mk.injEq]
  exact And.comm

theorem addrEqualTo_comm (a b : AddrObj) : AddrEqualTo a b = AddrEqualTo b a := by
  rw [Bool.eq_iff_iff, addrEqualTo_iff, addrEqualTo_iff]
  exact eq_comm

/-- Equal addresses have one hash, whatever the standard library's hashes are, only as one object. -/
theorem addrHash_of_equal {a b : AddrObj} (heq : AddrEqualTo a b = true) :
    (∀ std, AddrHash std a = AddrHash std b) ↔ a.loc = b.loc := by
  have haddr : a.addr = b.addr := addrEqualTo_iff.mp heq
  constructor
  · intro h
    have hid := h ⟨id, id, fun _ _ => 0, 1, fun _ _ => 1⟩
    simp only [AddrHash, id_eq, haddr] at hid
    exact (UInt64.add_left_inj _).mp hid
  · intro hloc std
    unfold AddrHash
    rw [hloc, haddr]

end Ven
