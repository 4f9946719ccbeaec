import Ven.Word
import Mathlib.Data.List.Basic
import Mathlib.Data.List.Forall2

namespace Ven

/-- The objects of a C++ type, and when two of them are equal. -/
structure ObjType where
  Obj : Type
  Same : Obj → Obj → Prop
  dec : ∀ a b, Decidable (Same a b)
  refl : ∀ a, Same a a
  symm : ∀ {a b}, Same a b → Same b a
  trans : ∀ {a b c}, Same a b → Same b c → Same a c

namespace ObjType

instance (A : ObjType) (a b : A.Obj) : Decidable (A.Same a b) := A.dec a b

/-- Types whose objects are equal only if they are identical. -/
def plain (α : Type) [DecidableEq α] : ObjType :=
  ⟨α, Eq, fun _ _ => inferInstance, fun _ => rfl, fun h => h.symm, fun h h' => h.trans h'⟩

/-- Two collections with the same members, up to equality of the members. -/
def SameMembers {α : Type} (same : α → α → Prop) (xs ys : List α) : Prop :=
  (∀ x ∈ xs, ∃ y ∈ ys, same x y) ∧ ∀ y ∈ ys, ∃ x ∈ xs, same y x

theorem SameMembers.refl {α : Type} {same : α → α → Prop} (h : ∀ a, same a a) (xs : List α) :
    SameMembers same xs xs := ⟨fun x hx => ⟨x, hx, h x⟩, fun x hx => ⟨x, hx, h x⟩⟩

theorem SameMembers.symm {α : Type} {same : α → α → Prop} {xs ys : List α}
    (h : SameMembers same xs ys) : SameMembers same ys xs := ⟨h.2, h.1⟩

theorem SameMembers.trans {α : Type} {same : α → α → Prop}
    (ht : ∀ {a b c}, same a b → same b c → same a c) {xs ys zs : List α}
    (a : SameMembers same xs ys) (b : SameMembers same ys zs) : SameMembers same xs zs := by
  constructor
  · intro x hx
    obtain ⟨y, hy, hxy⟩ := a.1 x hx
    obtain ⟨z, hz, hyz⟩ := b.1 y hy
    exact ⟨z, hz, ht hxy hyz⟩
  · intro z hz
    obtain ⟨y, hy, hzy⟩ := b.2 z hz
    obtain ⟨x, hx, hyx⟩ := a.2 y hy
    exact ⟨x, hx, ht hzy hyx⟩

def decForall₂ {α : Type} {same : α → α → Prop} (dec : ∀ a b, Decidable (same a b)) :
    ∀ xs ys : List α, Decidable (List.Forall₂ same xs ys)
  | [], [] => isTrue .nil
  | [], _ :: _ => isFalse fun h => nomatch h
  | _ :: _, [] => isFalse fun h => nomatch h
  | x :: xs, y :: ys =>
    match dec x y, decForall₂ dec xs ys with
    | isTrue h, isTrue hs => isTrue (.cons h hs)
    | isFalse h, _ => isFalse fun hc => h (List.forall₂_cons.mp hc).1
    | _, isFalse hs => isFalse fun hc => hs (List.forall₂_cons.mp hc).2

def vector (A : ObjType) : ObjType where
  Obj := List A.Obj
  Same := List.Forall₂ A.Same
  dec := decForall₂ A.dec
  refl := fun xs => List.forall₂_same.mpr fun x _ => A.refl x
  symm := fun h => h.flip.imp fun _ _ h => A.symm h
  trans := by
    intro xs ys zs h
    induction h generalizing zs with
    | nil => exact fun h => h
    | cons hx _ ih =>
      intro h
      cases h with
      | cons hy hys => exact .cons (A.trans hx hy) (ih hys)

/-- A container without duplicates: its members in iteration order. -/
structure Distinct {α : Type} (same : α → α → Prop) where
  items : List α
  distinct : items.Pairwise fun a b => ¬same a b

def Distinct.empty {α : Type} {same : α → α → Prop} : Distinct same := ⟨[], .nil⟩

def set (A : ObjType) : ObjType where
  Obj := Distinct A.Same
  Same := fun a b => SameMembers A.Same a.items b.items
  dec := fun _ _ => inferInstanceAs (Decidable (_ ∧ _))
  refl := fun a => SameMembers.refl A.refl a.items
  symm := SameMembers.symm
  trans := fun h h' => @SameMembers.trans _ A.Same (fun h h' => A.trans h h') _ _ _ h h'

/-- The pairs of a map have the same key. -/
def SameKey (K V : ObjType) (x y : K.Obj × V.Obj) : Prop := K.Same x.1 y.1

instance (K V : ObjType) (x y : K.Obj × V.Obj) : Decidable (SameKey K V x y) := K.dec x.1 y.1

def SamePair (K V : ObjType) (x y : K.Obj × V.Obj) : Prop := K.Same x.1 y.1 ∧ V.Same x.2 y.2

instance (K V : ObjType) (x y : K.Obj × V.Obj) : Decidable (SamePair K V x y) :=
  inferInstanceAs (Decidable (_ ∧ _))

def map (K V : ObjType) : ObjType where
  Obj := Distinct (SameKey K V)
  Same := fun a b => SameMembers (SamePair K V) a.items b.items
  dec := fun _ _ => inferInstanceAs (Decidable (_ ∧ _))
  refl := fun a => SameMembers.refl (fun x => ⟨K.refl x.1, V.refl x.2⟩) a.items
  symm := SameMembers.symm
  trans := fun h h' => @SameMembers.trans _ (SamePair K V)
    (fun h h' => ⟨K.trans h.1 h'.1, V.trans h.2 h'.2⟩) _ _ _ h h'

end ObjType

/-- Fixed-size primitives of some `sizeof`, and fixed arrays of them; C++ has no empty ones. -/
inductive Fixed
  | prim (sizeof : Nat) (pos : 0 < sizeof := by decide)
  | array (elem : Fixed) (cnt : Nat) (pos : 0 < cnt := by decide)
deriving DecidableEq

/-- `uint32_t` -/
abbrev Fixed.uint32 : Fixed := .prim 4

/-- The number of bytes an object takes in memory. -/
def Fixed.bytes : Fixed → Nat
  | .prim sizeof _ => sizeof
  | .array elem cnt _ => elem.bytes * cnt

theorem Fixed.bytes_pos (f : Fixed) : 0 < f.bytes := by
  induction f with
  | prim n pos => exact pos
  | array e c pos ih => exact Nat.mul_pos ih pos

inductive Ty
  | fixed (f : Fixed)
  | string
  | vector (t : Ty)
  | set (t : Ty)
  | unorderedSet (t : Ty)
  | map (k v : Ty)
  | unorderedMap (k v : Ty)
deriving DecidableEq

/-- An object of fixed size is given by the bytes it consists of. -/
abbrev FixedObj (n : Nat) : Type := { bs : List UInt8 // bs.length = n }

def Ty.type : Ty → ObjType
  | .fixed f => ObjType.plain (FixedObj f.bytes)
  | .string => ObjType.plain (List UInt8)
  | .vector t => ObjType.vector t.type
  | .set t => ObjType.set t.type
  | .unorderedSet t => ObjType.set t.type
  | .map k v => ObjType.map k.type v.type
  | .unorderedMap k v => ObjType.map k.type v.type

abbrev Ty.Obj (t : Ty) : Type := t.type.Obj

abbrev Ty.Same (t : Ty) (a b : t.Obj) : Prop := t.type.Same a b

/-- What the C++ standard leaves open: the bytes of an object that was not initialised, and where
a container of some type puts a new element in its iteration order. -/
structure Impl where
  uninit : (n : Nat) → FixedObj n
  place : Ty → {α : Type} → List α → α → List α
  perm : ∀ (c : Ty) {α : Type} (l : List α) (x : α), (place c l x).Perm (x :: l)

/-- Zeros for uninitialised objects, and containers that iterate in the order of insertion. -/
def Impl.plain : Impl where
  uninit := fun n => ⟨List.replicate n 0, List.length_replicate⟩
  place := fun _ {_} l x => l ++ [x]
  perm := fun _ {_} l x => List.perm_append_singleton x l

namespace ObjType

/-- `insert` of a set or a map: an element that is there already stays. -/
def Distinct.insert {α : Type} {same : α → α → Prop} [DecidableRel same]
    (symm : ∀ {a b}, same a b → same b a) (I : Impl) (c : Ty) (s : Distinct same) (x : α) : Distinct same :=
  if h : ∃ y ∈ s.items, same x y then s
  else
    { items := I.place c s.items x
      distinct := by
        have hcons : (x :: s.items).Pairwise fun a b => ¬same a b :=
          List.pairwise_cons.mpr ⟨fun y hy hxy => h ⟨y, hy, hxy⟩, s.distinct⟩
        exact ((I.perm c s.items x).pairwise_iff fun h h' => h (symm h')).mpr hcons }

def insertSet (I : Impl) (c : Ty) (A : ObjType) : Distinct A.Same → A.Obj → Distinct A.Same :=
  Distinct.insert A.symm I c

def insertMap (I : Impl) (c : Ty) (K V : ObjType) :
    Distinct (SameKey K V) → K.Obj × V.Obj → Distinct (SameKey K V) :=
  Distinct.insert K.symm I c

end ObjType

open ObjType

/-- `T t;` -/
def Ty.fresh (I : Impl) : (t : Ty) → t.Obj
  | .fixed f => I.uninit f.bytes
  | .string => ([] : List UInt8)
  | .vector t => ([] : List t.Obj)
  | .set t => (Distinct.empty : Distinct t.type.Same)
  | .unorderedSet t => (Distinct.empty : Distinct t.type.Same)
  | .map k v => (Distinct.empty : Distinct (SameKey k.type v.type))
  | .unorderedMap k v => (Distinct.empty : Distinct (SameKey k.type v.type))

/-- Strings and containers without elements. -/
def Ty.Empty : (t : Ty) → t.Obj → Prop
  | .fixed _, _ => True
  | .string, v => v = ([] : List UInt8)
  | .vector t, v => v = ([] : List t.Obj)
  | .set t, v => v = (Distinct.empty : Distinct t.type.Same)
  | .unorderedSet t, v => v = (Distinct.empty : Distinct t.type.Same)
  | .map k v, w => w = (Distinct.empty : Distinct (SameKey k.type v.type))
  | .unorderedMap k v, w => w = (Distinct.empty : Distinct (SameKey k.type v.type))

theorem Ty.empty_fresh (I : Impl) (t : Ty) : t.Empty (t.fresh I) := by
  cases t with
  | fixed f => exact trivial
  | _ => exact rfl

end Ven
