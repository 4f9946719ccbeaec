import Ven.Sizer
import Ven.Mem

namespace Ven

open ObjType

/-- What a `set` leaves in memory, what it returns, and the spans `(pos, len)` it writes behind
`buf_`. -/
structure Put where
  mem : Bytes.Memory
  ret : Nat
  writes : List (Nat × Nat)

/-- The variables of an encoding loop. -/
structure SetLoop where
  mem : Bytes.Memory
  pos : Nat
  writes : List (Nat × Nat)

namespace Buf

/-- `memcpy(buf_ + pos, ..)` of some bytes. -/
def copyIn (m : Bytes.Memory) (pos : Nat) (data : List UInt8) : SetLoop :=
  ⟨Bytes.writeAt m pos data, pos, [(pos, data.length)]⟩

def putFixed (f : Fixed) (v : FixedObj f.bytes) (m : Bytes.Memory) (pos size : Nat) : SetLoop :=
  copyIn m pos (v.1.take size)

/-- `set_cnt`, which moves the position behind the count. -/
def setCnt (m : Bytes.Memory) (pos cnt : Nat) : SetLoop :=
  { copyIn m pos (Bytes.leBytes 4 cnt) with pos := add32 pos Sizer.cntSize }

def putString (v : List UInt8) (m : Bytes.Memory) (pos : Nat) : SetLoop :=
  let cnt := u32 v.length
  let s := setCnt m pos cnt
  let t := copyIn s.mem s.pos (v.take cnt)
  { t with writes := s.writes ++ t.writes }

/-- `pos += set(t, pos);` -/
def advance (s : SetLoop) (p : Put) : SetLoop := ⟨p.mem, add32 s.pos p.ret, s.writes ++ p.writes⟩

def putElem {α : Type} (set : α → Bytes.Memory → Nat → Put) (s : SetLoop) (t : α) : SetLoop :=
  advance s (set t s.mem s.pos)

def putPair {α β : Type} (set₁ : α → Bytes.Memory → Nat → Put) (set₂ : β → Bytes.Memory → Nat → Put)
    (s : SetLoop) (kv : α × β) : SetLoop :=
  putElem set₂ (putElem set₁ s kv.1) kv.2

/-- What all containers have in common: the count, then the elements in iteration order. -/
def putLoop {α : Type} (body : SetLoop → α → SetLoop) (v : List α) (m : Bytes.Memory) (pos : Nat) : SetLoop :=
  v.foldl body (setCnt m pos (u32 v.length))

def putVector {A : ObjType} (set : A.Obj → Bytes.Memory → Nat → Put) (v : List A.Obj) :
    Bytes.Memory → Nat → SetLoop :=
  putLoop (putElem set) v

def putSet {A : ObjType} (set : A.Obj → Bytes.Memory → Nat → Put) (v : Distinct A.Same) :
    Bytes.Memory → Nat → SetLoop :=
  putLoop (putElem set) v.items

def putUnorderedSet {A : ObjType} (set : A.Obj → Bytes.Memory → Nat → Put) (v : Distinct A.Same) :
    Bytes.Memory → Nat → SetLoop :=
  putLoop (putElem set) v.items

def putMap {K V : ObjType} (set₁ : K.Obj → Bytes.Memory → Nat → Put)
    (set₂ : V.Obj → Bytes.Memory → Nat → Put) (v : Distinct (SameKey K V)) : Bytes.Memory → Nat → SetLoop :=
  putLoop (putPair set₁ set₂) v.items

def putUnorderedMap {K V : ObjType} (set₁ : K.Obj → Bytes.Memory → Nat → Put)
    (set₂ : V.Obj → Bytes.Memory → Nat → Put) (v : Distinct (SameKey K V)) : Bytes.Memory → Nat → SetLoop :=
  putLoop (putPair set₁ set₂) v.items

/-- The public `set`: nothing is written where the object does not fit. -/
def checked (len size : Nat) (m : Bytes.Memory) (pos : Nat) (put : SetLoop) : Put :=
  if len < add32 pos size then ⟨m, 0, []⟩ else ⟨put.mem, size, put.writes⟩

def set (len : Nat) : (t : Ty) → t.Obj → Bytes.Memory → Nat → Put
  | .fixed f, v, m, pos =>
    checked len (Sizer.size (.fixed f) v) m pos (putFixed f v m pos (Sizer.size (.fixed f) v))
  | .string, v, m, pos => checked len (Sizer.size .string v) m pos (putString v m pos)
  | .vector t, v, m, pos =>
    checked len (Sizer.size (.vector t) v) m pos (putVector (A := t.type) (set len t) v m pos)
  | .set t, v, m, pos =>
    checked len (Sizer.size (.set t) v) m pos (putSet (A := t.type) (set len t) v m pos)
  | .unorderedSet t, v, m, pos =>
    checked len (Sizer.size (.unorderedSet t) v) m pos (putUnorderedSet (A := t.type) (set len t) v m pos)
  | .map k v, w, m, pos =>
    checked len (Sizer.size (.map k v) w) m pos
      (putMap (K := k.type) (V := v.type) (set len k) (set len v) w m pos)
  | .unorderedMap k v, w, m, pos =>
    checked len (Sizer.size (.unorderedMap k v) w) m pos
      (putUnorderedMap (K := k.type) (V := v.type) (set len k) (set len v) w m pos)

end Buf

end Ven
