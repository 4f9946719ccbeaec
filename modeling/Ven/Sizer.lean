import Ven.Serializable

namespace Ven

open ObjType

namespace Sizer

def cntSize : Nat := 4

/-- `size(T&)` and `size(T(&arr)[cnt])` -/
def sizeFixed : Fixed → Nat
  | .prim sizeof _ => u32 sizeof
  | .array elem cnt _ => mul32 (sizeFixed elem) cnt

def sizeString (v : List UInt8) : Nat := add32 cntSize (u32 v.length)

/-- The loop that vectors and sets have in common. -/
def sizeElems {α : Type} (size : α → Nat) (v : List α) : Nat :=
  v.foldl (fun acc t => add32 acc (size t)) cntSize

/-- The loop that maps have in common. -/
def sizePairs {α β : Type} (size₁ : α → Nat) (size₂ : β → Nat) (v : List (α × β)) : Nat :=
  v.foldl (fun acc kv => add32 (add32 acc (size₁ kv.1)) (size₂ kv.2)) cntSize

def sizeVector {A : ObjType} (size : A.Obj → Nat) (v : List A.Obj) : Nat := sizeElems size v

def sizeSet {A : ObjType} (size : A.Obj → Nat) (v : Distinct A.Same) : Nat := sizeElems size v.items

def sizeUnorderedSet {A : ObjType} (size : A.Obj → Nat) (v : Distinct A.Same) : Nat :=
  sizeElems size v.items

def sizeMap {K V : ObjType} (size₁ : K.Obj → Nat) (size₂ : V.Obj → Nat) (v : Distinct (SameKey K V)) : Nat :=
  sizePairs size₁ size₂ v.items

def sizeUnorderedMap {K V : ObjType} (size₁ : K.Obj → Nat) (size₂ : V.Obj → Nat)
    (v : Distinct (SameKey K V)) : Nat :=
  sizePairs size₁ size₂ v.items

def size : (t : Ty) → t.Obj → Nat
  | .fixed f, _ => sizeFixed f
  | .string, v => sizeString v
  | .vector t, v => sizeVector (A := t.type) (size t) v
  | .set t, v => sizeSet (A := t.type) (size t) v
  | .unorderedSet t, v => sizeUnorderedSet (A := t.type) (size t) v
  | .map k v, w => sizeMap (K := k.type) (V := v.type) (size k) (size v) w
  | .unorderedMap k v, w => sizeUnorderedMap (K := k.type) (V := v.type) (size k) (size v) w

end Sizer

end Ven
