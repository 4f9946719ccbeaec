import Ven.EchoRuns
import Ven.Overwrite

namespace Ven

open BufConv SessionTCP

inductive PacketType
  | none
  | echoPacket
deriving DecidableEq

/-- The four bytes of the enumeration. -/
def PacketType.bytes : PacketType → List UInt8
  | .none => Bytes.leBytes 4 0
  | .echoPacket => Bytes.leBytes 4 1

/-- The enumeration has the size of an `int`. -/
abbrev PacketType.fixed : Fixed := .prim 4 (Nat.succ_pos 3)

theorem PacketType.length_bytes (type : PacketType) : type.bytes.length = 4 := by
  cases type <;> rfl

namespace EchoPacket

/-- `len_` and `type_` of the `PacketHeader`, and `str_`. -/
abbrev Fields : List Ty := [.fixed .uint32, .fixed PacketType.fixed, .string]

/-- "echo packet" -/
def defaultStr : List UInt8 := [101, 99, 104, 111, 32, 112, 97, 99, 107, 101, 116]

/-- The object of an unsigned integer type. -/
abbrev unsigned (sizeof n : Nat) : FixedObj sizeof := ⟨Bytes.leBytes sizeof n, Bytes.length_leBytes sizeof n⟩

/-- An `EchoPacket()` with some text. -/
def new (str : List UInt8) : Packet Fields :=
  (unsigned 4 0, ⟨PacketType.echoPacket.bytes, rfl⟩, str, ())

/-- `set_size` -/
def setSize (size : Nat) (p : Packet Fields) : Packet Fields :=
  (unsigned 4 size, p.2)

/-- The number of bytes of a packet with this text. -/
def size (str : List UInt8) : Nat := 12 + str.length

/-- What is sent for a packet with this text. -/
def encoded (str : List UInt8) : List UInt8 := Packet.bytes Fields (setSize (size str) (new str))

/-- `on_recv` of the client: the text that is shown, or none for a packet of another type. -/
def onRecv {τ : Type} (I : Impl) (Q : IMemPool τ) (r : Ram τ) (buf : Buf) : Ram τ × Option (List UInt8) :=
  let type := (Buf.get I (view r buf) buf.len (.fixed PacketType.fixed) ((Ty.fixed PacketType.fixed).fresh I) 4).val
  if type.1 = PacketType.echoPacket.bytes then
    let (r, _, packet) := makeFrom I Q Fields r buf (new defaultStr)
    (r, some packet.2.2.1)
  else (r, none)

theorem bytes_setSize (n : Nat) (str : List UInt8) :
    Packet.bytes Fields (setSize n (new str)) =
      Bytes.leBytes 4 n ++ (PacketType.echoPacket.bytes ++ (Bytes.leBytes 4 str.length ++ str)) := by
  have hstr : Ty.enc .string str = Bytes.leBytes 4 str.length ++ str := encItems_bytes str
  change Bytes.leBytes 4 n ++ (PacketType.echoPacket.bytes ++ (Ty.enc .string str ++ [])) = _
  rw [hstr, List.append_nil]

theorem length_setSize (n : Nat) (str : List UInt8) :
    (Packet.bytes Fields (setSize n (new str))).length = size str := by
  rw [bytes_setSize]
  simp only [List.length_append, Bytes.length_leBytes, PacketType.length_bytes, size]
  omega

theorem length_encoded (str : List UInt8) : (encoded str).length = size str := length_setSize _ str

/-- A session takes it for one packet. -/
theorem whole_encoded {str : List UInt8} (hfit : size str ≤ 131072) : Whole (encoded str) := by
  have hle : 4 ≤ (encoded str).length := by
    rw [length_encoded, size]
    omega
  have htake : (encoded str).take 4 = Bytes.leBytes 4 (size str) := by
    rw [encoded, bytes_setSize, List.take_left' (Bytes.length_leBytes 4 _)]
  refine ⟨?_, ?_⟩
  · rw [getPacketSize_of_le hle, htake, Bytes.leNat_leBytes (by omega), length_encoded]
  · rw [length_encoded]
    have hpos : ¬(size str = 0 ∨ 131072 < size str) := by
      unfold size at hfit ⊢
      omega
    exact (@valid_defaults 0 _).mpr hpos

end EchoPacket

variable {σ τ : Type} {P : IMemPool σ} {Q : IMemPool τ} {rbs rbc : Nat} {e e' : Echo σ τ}

/-- The client only sends packets of this kind, none too long. -/
def EchoOp.Text : EchoOp → Prop
  | .client (.call _ (some buf)) => ∃ str, EchoPacket.size str ≤ 131072 ∧ EchoPacket.encoded str = buf
  | _ => True

theorem EchoOp.Text.packet {op : EchoOp} (h : op.Text) : op.Packet := by
  cases op with
  | client op =>
    cases op with
    | call t buf =>
      cases buf with
      | none => exact trivial
      | some buf =>
        obtain ⟨str, hfit, rfl⟩ := h
        exact EchoPacket.whole_encoded hfit
    | _ => exact trivial
  | _ => exact trivial

theorem Sender.Carries.same {α : Type} {R : α → Prop} {s s' : Sender α} (c : s.Carries R)
    (haccepted : s'.accepted = s.accepted) (hthread : s'.thread = s.thread) : s'.Carries R :=
  ⟨fun buf hbuf => c.accepted buf (haccepted ▸ hbuf), fun t buf resumed ht => c.entered t buf resumed (hthread ▸ ht)⟩

namespace Echo

end Echo

end Ven
