import Ven.Sizer
import Ven.Mem
import Mathlib.Logic.Function.Iterate

namespace Ven

open ObjType

/-- What a `get` stores, what it returns, and the spans `(pos, len)` it reads behind `buf_`. -/
structure Got (α : Type) where
  val : α
  ret : Nat
  reads : List (Nat × Nat)

/-- `memcpy` onto an object of fixed size. -/
def FixedObj.memcpy {n : Nat} (v : FixedObj n) (data : List UInt8) : FixedObj n :=
  ⟨(data ++ v.1.drop data.length).take n, by have := v.2; simp; omega⟩

/-- The variables of a decoding loop. -/
structure GetLoop (α : Type) where
  v : α
  size : Nat
  pos : Nat
  reads : List (Nat × Nat)

namespace Buf

-- `m` are the bytes from `buf_` on, and `len` is `len_`
variable (I : Impl) (m : Bytes.Memory) (len : Nat)

def getFixed (f : Fixed) (v : FixedObj f.bytes) (pos : Nat) : Got (FixedObj f.bytes) :=
  let size := Sizer.sizeFixed f
  if len < add32 pos size then ⟨v, 0, []⟩
  else ⟨v.memcpy (Bytes.readAt m pos size), size, [(pos, size)]⟩

/-- `get_cnt`, with the position it moves to. -/
def getCnt (pos : Nat) : Got Nat × Nat :=
  let g := getFixed m len .uint32 ⟨Bytes.leBytes 4 0, rfl⟩ pos
  (⟨Bytes.leNat g.val.1, g.ret, g.reads⟩, add32 pos g.ret)

def getString (v : List UInt8) (pos : Nat) : Got (List UInt8) :=
  let (c, pos) := getCnt m len pos
  if c.val = 0 then ⟨v, c.ret, c.reads⟩
  else ⟨Bytes.readAt m pos c.val, add32 c.ret c.val, c.reads ++ [(pos, c.val)]⟩

/-- One turn of the loop of vectors and sets; `insert` is the container's own. -/
def elemBody {α β : Type} (get : α → Nat → Got α) (t : α) (insert : β → α → β) (s : GetLoop β) : GetLoop β :=
  let g := get t s.pos
  ⟨insert s.v g.val, add32 s.size g.ret, add32 s.pos g.ret, s.reads ++ g.reads⟩

/-- One turn of the loop of maps. -/
def pairBody {α β γ : Type} (get₁ : α → Nat → Got α) (get₂ : β → Nat → Got β) (t₁ : α) (t₂ : β)
    (insert : γ → α × β → γ) (s : GetLoop γ) : GetLoop γ :=
  let g₁ := get₁ t₁ s.pos
  let size := add32 s.size g₁.ret
  let pos := add32 s.pos g₁.ret
  let g₂ := get₂ t₂ pos
  ⟨insert s.v (g₁.val, g₂.val), add32 size g₂.ret, add32 pos g₂.ret, s.reads ++ g₁.reads ++ g₂.reads⟩

/-- What all containers have in common: the count, then as many turns of the loop. -/
def getLoop {γ : Type} (body : GetLoop γ → GetLoop γ) (v : γ) (pos : Nat) : Got γ :=
  let (c, pos) := getCnt m len pos
  let s := body^[c.val] ⟨v, c.ret, pos, c.reads⟩
  ⟨s.v, s.size, s.reads⟩

def getVector {A : ObjType} (get : A.Obj → Nat → Got A.Obj) (t : A.Obj) (v : List A.Obj) (pos : Nat) :
    Got (List A.Obj) :=
  getLoop m len (elemBody get t fun v t => v ++ [t]) v pos

def getSet {A : ObjType} (c : Ty) (get : A.Obj → Nat → Got A.Obj) (t : A.Obj) (v : Distinct A.Same)
    (pos : Nat) : Got (Distinct A.Same) :=
  getLoop m len (elemBody get t (insertSet I c A)) v pos

def getUnorderedSet {A : ObjType} (c : Ty) (get : A.Obj → Nat → Got A.Obj) (t : A.Obj)
    (v : Distinct A.Same) (pos : Nat) : Got (Distinct A.Same) :=
  getLoop m len (elemBody get t (insertSet I c A)) v pos

def getMap {K V : ObjType} (c : Ty) (get₁ : K.Obj → Nat → Got K.Obj) (get₂ : V.Obj → Nat → Got V.Obj)
    (t₁ : K.Obj) (t₂ : V.Obj) (v : Distinct (SameKey K V)) (pos : Nat) : Got (Distinct (SameKey K V)) :=
  getLoop m len (pairBody get₁ get₂ t₁ t₂ (insertMap I c K V)) v pos

def getUnorderedMap {K V : ObjType} (c : Ty) (get₁ : K.Obj → Nat → Got K.Obj)
    (get₂ : V.Obj → Nat → Got V.Obj) (t₁ : K.Obj) (t₂ : V.Obj) (v : Distinct (SameKey K V)) (pos : Nat) :
    Got (Distinct (SameKey K V)) :=
  getLoop m len (pairBody get₁ get₂ t₁ t₂ (insertMap I c K V)) v pos

def get : (t : Ty) → t.Obj → Nat → Got t.Obj
  | .fixed f, v, pos => getFixed m len f v pos
  | .string, v, pos => getString m len v pos
  | .vector t, v, pos => getVector m len (A := t.type) (get t) (t.fresh I) v pos
  | .set t, v, pos => getSet I m len (A := t.type) (.set t) (get t) (t.fresh I) v pos
  | .unorderedSet t, v, pos => getUnorderedSet I m len (A := t.type) (.unorderedSet t) (get t) (t.fresh I) v pos
  | .map k v, w, pos =>
    getMap I m len (K := k.type) (V := v.type) (.map k v) (get k) (get v) (k.fresh I) (v.fresh I) w pos
  | .unorderedMap k v, w, pos =>
    getUnorderedMap I m len (K := k.type) (V := v.type) (.unorderedMap k v) (get k) (get v) (k.fresh I)
      (v.fresh I) w pos

end Buf

end Ven
