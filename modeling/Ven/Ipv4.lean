import Mathlib.Logic.Basic

/-- An IPv4 address, its octets as they stand in memory. -/
structure Ipv4 where
  a : UInt8
  b : UInt8
  c : UInt8
  d : UInt8
deriving DecidableEq

/-- `inet_pton` and `inet_ntop` of the system for `AF_INET`, as they are documented: a printed address fits 16 bytes with
its terminating zero and is read back, and what is read has four parts of at most three characters. -/
structure Ipv4.Codec where
  pton : List UInt8 → Option Ipv4
  ntop : Ipv4 → List UInt8
  length_ntop : ∀ ip, (ntop ip).length < 16
  zero_notMem_ntop : ∀ ip, 0 ∉ ntop ip
  pton_ntop : ∀ ip, pton (ntop ip) = some ip
  length_of_pton : ∀ {text ip}, pton text = some ip → text.length < 16
  pton_nil : pton [] = none

namespace Ipv4

/-- The decimal digits of an octet. -/
def digits (n : Nat) : List UInt8 :=
  if n < 10 then [48 + UInt8.ofNat n]
  else if n < 100 then [48 + UInt8.ofNat (n / 10), 48 + UInt8.ofNat (n % 10)]
  else [48 + UInt8.ofNat (n / 100), 48 + UInt8.ofNat (n / 10 % 10), 48 + UInt8.ofNat (n % 10)]

def isDigit (c : UInt8) : Bool := decide (48 ≤ c ∧ c ≤ 57)

/-- One to three decimal digits that come to at most 255, without a leading zero. -/
def readOctet (text : List UInt8) : Option UInt8 :=
  let n := text.foldl (fun n c => 10 * n + (c.toNat - 48)) 0
  if text ≠ [] ∧ text.length ≤ 3 ∧ text.all isDigit ∧ (text.head? = some 48 → text.length = 1) ∧ n ≤ 255 then
    some (UInt8.ofNat n)
  else none

/-- The parts of a text between its dots. -/
def readParts : List (List UInt8) → Option Ipv4
  | [a, b, c, d] =>
    match readOctet a, readOctet b, readOctet c, readOctet d with
    | some a, some b, some c, some d => some ⟨a, b, c, d⟩
    | _, _, _, _ => none
  | _ => none

/-- The octets in decimal, with dots between them. -/
def ntop (ip : Ipv4) : List UInt8 :=
  [46].intercalate [digits ip.a.toNat, digits ip.b.toNat, digits ip.c.toNat, digits ip.d.toNat]

/-- The strict reading of such a text. -/
def pton (text : List UInt8) : Option Ipv4 := readParts (text.splitOn 46)

def any : Ipv4 := ⟨0, 0, 0, 0⟩

theorem digits_spec : ∀ n < 256,
    readOctet (digits n) = some (UInt8.ofNat n) ∧ (digits n).length ≤ 3 ∧ 46 ∉ digits n ∧ 0 ∉ digits n := by
  decide +kernel

theorem readOctet_digits (x : UInt8) : readOctet (digits x.toNat) = some x := by
  rw [(digits_spec x.toNat x.toNat_lt).1, UInt8.ofNat_toNat]

variable (ip : Ipv4)

theorem ntop_eq : ip.ntop =
    digits ip.a.toNat ++ 46 :: (digits ip.b.toNat ++ 46 :: (digits ip.c.toNat ++ 46 :: digits ip.d.toNat)) := by
  simp [ntop, List.intercalate, List.intersperse]

theorem length_ntop : ip.ntop.length < 16 := by
  have ha := (digits_spec _ ip.a.toNat_lt).2.1
  have hb := (digits_spec _ ip.b.toNat_lt).2.1
  have hc := (digits_spec _ ip.c.toNat_lt).2.1
  have hd := (digits_spec _ ip.d.toNat_lt).2.1
  rw [ntop_eq]
  simp only [List.length_append, List.length_cons]
  omega

theorem zero_notMem_ntop : 0 ∉ ip.ntop := by
  have ha := (digits_spec _ ip.a.toNat_lt).2.2.2
  have hb := (digits_spec _ ip.b.toNat_lt).2.2.2
  have hc := (digits_spec _ ip.c.toNat_lt).2.2.2
  have hd := (digits_spec _ ip.d.toNat_lt).2.2.2
  rw [ntop_eq]
  simp [ha, hb, hc, hd]

/-- What is printed is read back. -/
theorem pton_ntop : pton ip.ntop = some ip := by
  have hparts : ip.ntop.splitOn 46 =
      [digits ip.a.toNat, digits ip.b.toNat, digits ip.c.toNat, digits ip.d.toNat] := by
    refine List.splitOn_intercalate 46 (fun part hin => ?_) (List.cons_ne_nil _ _)
    simp only [List.mem_cons, List.not_mem_nil, or_false] at hin
    rcases hin with rfl | rfl | rfl | rfl
    · exact (digits_spec _ ip.a.toNat_lt).2.2.1
    · exact (digits_spec _ ip.b.toNat_lt).2.2.1
    · exact (digits_spec _ ip.c.toNat_lt).2.2.1
    · exact (digits_spec _ ip.d.toNat_lt).2.2.1
  unfold pton
  rw [hparts]
  simp only [readParts, readOctet_digits]

/-- An octet has at most three characters. -/
theorem length_of_readOctet {text : List UInt8} {x : UInt8} (h : readOctet text = some x) : text.length ≤ 3 := by
  unfold readOctet at h
  dsimp only at h
  split at h
  next hok => exact hok.2.1
  next => cases h

/-- A text that is read has at most fifteen characters. -/
theorem length_of_pton {text : List UInt8} (h : pton text = some ip) : text.length < 16 := by
  unfold pton at h
  have htext : [46].intercalate (text.splitOn 46) = text := List.intercalate_splitOn 46
  generalize text.splitOn 46 = parts at h htext
  unfold readParts at h
  split at h
  next a b c d =>
    split at h
    next ha hb hc hd =>
      have hla := length_of_readOctet ha
      have hlb := length_of_readOctet hb
      have hlc := length_of_readOctet hc
      have hld := length_of_readOctet hd
      rw [← htext]
      simp [List.intercalate, List.intersperse]
      omega
    next => cases h
  next => cases h

/-- A system that prints and reads addresses so. -/
def dotted : Codec where
  pton := pton
  ntop := ntop
  length_ntop := length_ntop
  zero_notMem_ntop := zero_notMem_ntop
  pton_ntop := pton_ntop
  length_of_pton := length_of_pton _
  pton_nil := rfl

end Ipv4
