import Mathlib.Data.List.TakeWhile
import Ven.Addr
import Ven.Ipv4

namespace Ven

/-- `sin_port` is in network byte order; `sinZero` are the eight bytes behind the address. -/
structure SockaddrIn where
  sinFamily : UInt16
  sinPort : UInt16
  sinAddr : Ipv4
  sinZero : UInt64
deriving DecidableEq

def afInet : UInt16 := 2

/-- The two bytes of a number change places, as on every machine that Windows runs on. -/
def htons (port : UInt16) : UInt16 := UInt16.ofNat (port.toNat % 256 * 256 + port.toNat / 256)

def ntohs (port : UInt16) : UInt16 := htons port

@[simp] theorem htons_htons (port : UInt16) : htons (htons port) = port := by
  apply UInt16.toNat.inj
  have hlt : port.toNat % 256 * 256 + port.toNat / 256 < 2 ^ 16 := by
    have := port.toNat_lt
    omega
  have hlt' : (port.toNat % 256 * 256 + port.toNat / 256) % 256 * 256 +
      (port.toNat % 256 * 256 + port.toNat / 256) / 256 = port.toNat := by
    have := port.toNat_lt
    omega
  simp only [htons, UInt16.toNat_ofNat', Nat.mod_eq_of_lt hlt]
  rw [hlt', Nat.mod_eq_of_lt port.toNat_lt]

/-- What `strncpy_s` of at most `size - 1` characters leaves of a text before the terminating zero. -/
def copy (s : List UInt8) (size : Nat) : List UInt8 := (s.takeWhile (· ≠ 0)).take (size - 1)

theorem length_copy (s : List UInt8) (size : Nat) : (copy s size).length ≤ size - 1 := List.length_take_le _ _

theorem zero_notMem_cstr (s : List UInt8) : 0 ∉ s.takeWhile (· ≠ 0) := by
  intro hin
  have hne := List.mem_takeWhile_imp hin
  simp at hne

namespace Addr

variable (L : Ipv4.Codec)

/-- `Addr(const char*, uint16_t)`, and by way of `c_str` `Addr(const std::string&, uint16_t)`. -/
def ofText (ip : List UInt8) (port : UInt16) : Addr where
  ip := copy ip 16
  port := port
  short := Nat.lt_succ_of_le (length_copy ip 16)
  terminated := fun hin => zero_notMem_cstr ip (List.mem_of_mem_take hin)

/-- `set_sockaddr` -/
def ofSockaddr (sa : SockaddrIn) : Addr where
  ip := L.ntop sa.sinAddr
  port := ntohs sa.sinPort
  short := L.length_ntop sa.sinAddr
  terminated := L.zero_notMem_ntop sa.sinAddr

def isAnyIp (a : Addr) : Bool := a.ip.headD 0 == 0

/-- `inet_pton` stores nothing when it fails, and the structure was cleared before. -/
def sockaddr (a : Addr) : SockaddrIn :=
  let addr : SockaddrIn := ⟨0, 0, .any, 0⟩
  let addr := { addr with sinFamily := afInet, sinPort := htons a.port }
  if a.isAnyIp then { addr with sinAddr := .any } else { addr with sinAddr := (L.pton a.ip).getD addr.sinAddr }

theorem eq_of {a b : Addr} (hip : a.ip = b.ip) (hport : a.port = b.port) : a = b := by
  cases a
  cases b
  cases hip
  cases hport
  rfl

theorem isAnyIp_iff {a : Addr} : a.isAnyIp = true ↔ a.ip = [] := by
  unfold isAnyIp
  cases hip : a.ip with
  | nil => exact ⟨fun _ => rfl, fun _ => rfl⟩
  | cons c cs =>
    have hc : c ≠ 0 := fun h => a.terminated (by rw [hip, h]; exact List.mem_cons_self)
    rw [beq_iff_eq]
    exact ⟨fun h => absurd h hc, fun h => absurd h (List.cons_ne_nil c cs)⟩

/-- Whatever is no address stands for any. -/
theorem sockaddr_eq (a : Addr) : a.sockaddr L = ⟨afInet, htons a.port, (L.pton a.ip).getD .any, 0⟩ := by
  unfold sockaddr
  dsimp only
  split
  next hany =>
    rw [isAnyIp_iff.mp hany, L.pton_nil]
    rfl
  next => rfl

theorem ofSockaddr_sockaddr (a : Addr) : ofSockaddr L (a.sockaddr L) = a ↔ ∃ ip, a.ip = L.ntop ip := by
  rw [sockaddr_eq]
  constructor
  · exact fun h => ⟨_, (congrArg Addr.ip h).symm⟩
  · rintro ⟨ip, hip⟩
    refine eq_of ?_ (htons_htons a.port)
    change L.ntop ((L.pton a.ip).getD .any) = a.ip
    rw [hip, L.pton_ntop]
    rfl

theorem sockaddr_ofSockaddr (sa : SockaddrIn) :
    (ofSockaddr L sa).sockaddr L = { sa with sinFamily := afInet, sinZero := 0 } := by
  rw [sockaddr_eq]
  simp only [ofSockaddr, L.pton_ntop, Option.getD_some, ntohs, htons_htons]

/-- No text of more than fifteen characters is an address, but its first fifteen may be one. -/
theorem ofText_sockaddr (text : List UInt8) (port : UInt16) :
    ((ofText text port).sockaddr L).sinAddr = (L.pton (text.takeWhile (· ≠ 0))).getD .any ↔
      (text.takeWhile (· ≠ 0)).length < 16 ∨ (L.pton (copy text 16)).getD .any = .any := by
  rw [sockaddr_eq]
  change (L.pton (copy text 16)).getD .any = _ ↔ _
  by_cases hlen : (text.takeWhile (· ≠ 0)).length < 16
  · have hall : copy text 16 = text.takeWhile (· ≠ 0) := List.take_of_length_le (by omega)
    rw [hall]
    exact ⟨fun _ => Or.inl hlen, fun _ => rfl⟩
  · have hnone : L.pton (text.takeWhile (· ≠ 0)) = none := by
      cases hread : L.pton (text.takeWhile (· ≠ 0)) with
      | none => rfl
      | some ip => exact absurd (L.length_of_pton hread) hlen
    rw [hnone]
    exact ⟨Or.inr, fun h => h.resolve_left hlen⟩

/-- A socket address comes back from its `Addr`, an `Addr` comes back from its socket address exactly when it is
written as the system writes it, and a text stands for what it says unless it is cut to another address. -/
theorem sockaddr_round_trip :
    (∀ sa : SockaddrIn, (ofSockaddr L sa).sockaddr L = sa ↔ sa.sinFamily = afInet ∧ sa.sinZero = 0) ∧
    (∀ a : Addr, ofSockaddr L (a.sockaddr L) = a ↔ ∃ ip, a.ip = L.ntop ip) ∧
    ∀ (text : List UInt8) (port : UInt16),
      ((ofText text port).sockaddr L).sinAddr = (L.pton (text.takeWhile (· ≠ 0))).getD .any ↔
        (text.takeWhile (· ≠ 0)).length < 16 ∨ (L.pton (copy text 16)).getD .any = .any := by
  refine ⟨fun sa => ?_, ofSockaddr_sockaddr L, ofText_sockaddr L⟩
  rw [sockaddr_ofSockaddr]
  obtain ⟨family, port, addr, zero⟩ := sa
  simp only [SockaddrIn.mk.injEq, true_and]
  exact ⟨fun h => ⟨h.1.symm, h.2.symm⟩, fun h => ⟨h.1.symm, h.2.symm⟩⟩

/-- "192.168.100.1000" is cut to the address of another machine. -/
theorem sockaddr_round_trip_sample :
    ((ofText [49, 57, 50, 46, 49, 54, 56, 46, 49, 48, 48, 46, 49, 48, 48, 48] 80).sockaddr Ipv4.dotted).sinAddr =
        ⟨192, 168, 100, 100⟩ ∧
      ((ofText [49, 57, 50, 46, 49, 54, 56, 46, 49, 48, 48, 46, 49, 48, 48, 48] 80).sockaddr Ipv4.dotted).sinAddr ≠
        (Ipv4.pton [49, 57, 50, 46, 49, 54, 56, 46, 49, 48, 48, 46, 49, 48, 48, 48]).getD .any := by
  refine ⟨by decide, fun h => ?_⟩
  have hcut := ((sockaddr_round_trip Ipv4.dotted).2.2 _ 80).mp h
  exact absurd hcut (by decide)

end Addr

end Ven
