import Ven.BufSet

namespace Ven

open ObjType

/-- A count and as many items. -/
def encItems {α : Type} (enc : α → List UInt8) (xs : List α) : List UInt8 :=
  Bytes.leBytes 4 xs.length ++ xs.flatMap enc

/-- The encoding of an object: what the write pass is meant to leave in the buffer. -/
def Ty.enc : (t : Ty) → t.Obj → List UInt8
  | .fixed _, v => v.1
  | .string, v => encItems (fun b : UInt8 => [b]) v
  | .vector t, v => encItems (enc t) v
  | .set t, v => encItems (enc t) (Distinct.items v)
  | .unorderedSet t, v => encItems (enc t) (Distinct.items v)
  | .map k v, w => encItems (fun kv => enc k kv.1 ++ enc v kv.2) (Distinct.items w)
  | .unorderedMap k v, w => encItems (fun kv => enc k kv.1 ++ enc v kv.2) (Distinct.items w)

theorem length_encItems {α : Type} (enc : α → List UInt8) (xs : List α) :
    (encItems enc xs).length = 4 + (xs.flatMap enc).length := by
  rw [encItems, List.length_append, Bytes.length_leBytes]

theorem encItems_pos {α : Type} (enc : α → List UInt8) (xs : List α) : 0 < (encItems enc xs).length := by
  rw [length_encItems]
  omega

theorem encItems_bytes (bs : List UInt8) :
    encItems (fun b => [b]) bs = Bytes.leBytes 4 bs.length ++ bs := by
  rw [encItems, List.flatMap_singleton']

theorem enc_pos (t : Ty) (v : t.Obj) : 0 < (t.enc v).length := by
  cases t with
  | fixed f =>
    have hv : (Ty.enc (.fixed f) v).length = f.bytes := Subtype.property v
    rw [hv]
    exact f.bytes_pos
  | _ => exact encItems_pos _ _

theorem encPair_pos {k w : Ty} (x : k.Obj × w.Obj) : 0 < (k.enc x.1 ++ w.enc x.2).length := by
  have hk := enc_pos k x.1
  rw [List.length_append]
  omega

/-- Elements take at least one byte each. -/
theorem length_le_flatMap {α : Type} {enc : α → List UInt8} {xs : List α}
    (h : ∀ x ∈ xs, 0 < (enc x).length) : xs.length ≤ (xs.flatMap enc).length := by
  induction xs with
  | nil => exact Nat.le_refl _
  | cons x xs ih =>
    have hx := h x List.mem_cons_self
    have hxs := ih fun y hy => h y (List.mem_cons_of_mem _ hy)
    rw [List.flatMap_cons, List.length_append, List.length_cons]
    omega

theorem sizeFixed_eq (f : Fixed) : Sizer.sizeFixed f = f.bytes % 4294967296 := by
  induction f with
  | prim n _ => exact u32_natCast n
  | array e c _ ih =>
    rw [Sizer.sizeFixed, mul32_eq, ih, Fixed.bytes, Nat.mod_mul_mod]

theorem sizeString_eq (bs : List UInt8) :
    Sizer.sizeString bs = (encItems (fun b => [b]) bs).length % 4294967296 := by
  have hadd := add32_eq Sizer.cntSize (u32 bs.length)
  have hu := u32_natCast bs.length
  rw [length_encItems, List.flatMap_singleton', Sizer.sizeString, hadd, hu, Sizer.cntSize]
  omega

theorem sizeElems_eq {α : Type} {size : α → Nat} {enc : α → List UInt8} {xs : List α}
    (h : ∀ x ∈ xs, size x = (enc x).length % 4294967296) :
    Sizer.sizeElems size xs = (encItems enc xs).length % 4294967296 := by
  have fold : ∀ acc, acc < 4294967296 → xs.foldl (fun acc t => add32 acc (size t)) acc =
      (acc + (xs.flatMap enc).length) % 4294967296 := by
    induction xs with
    | nil =>
      intro acc hacc
      simp [Nat.mod_eq_of_lt hacc]
    | cons x xs ih =>
      intro acc hacc
      have hx := h x List.mem_cons_self
      have hadd := add32_eq acc (size x)
      rw [List.foldl_cons, ih (fun y hy => h y (List.mem_cons_of_mem _ hy)) _ (add32_lt _ _),
        List.flatMap_cons, List.length_append]
      omega
  rw [length_encItems]
  exact fold 4 (by decide)

theorem sizePairs_eq {α β : Type} {size₁ : α → Nat} {size₂ : β → Nat} {enc₁ : α → List UInt8}
    {enc₂ : β → List UInt8} {xs : List (α × β)}
    (h₁ : ∀ x ∈ xs, size₁ x.1 = (enc₁ x.1).length % 4294967296)
    (h₂ : ∀ x ∈ xs, size₂ x.2 = (enc₂ x.2).length % 4294967296) :
    Sizer.sizePairs size₁ size₂ xs =
      (encItems (fun kv => enc₁ kv.1 ++ enc₂ kv.2) xs).length % 4294967296 := by
  have hsum : Sizer.sizePairs size₁ size₂ xs =
      Sizer.sizeElems (fun kv => add32 (size₁ kv.1) (size₂ kv.2)) xs := by
    unfold Sizer.sizePairs Sizer.sizeElems
    simp only [add32_add_right, add32_add]
  rw [hsum]
  apply sizeElems_eq
  intro x hx
  have e₁ := h₁ x hx
  have e₂ := h₂ x hx
  have hadd := add32_eq (size₁ x.1) (size₂ x.2)
  rw [List.length_append]
  omega

/-- The size pass counts the bytes of the encoding. -/
theorem size_eq (t : Ty) (v : t.Obj) : Sizer.size t v = (t.enc v).length % 4294967296 := by
  induction t with
  | fixed f =>
    have hv : (Ty.enc (.fixed f) v).length = f.bytes := Subtype.property v
    rw [hv]
    exact sizeFixed_eq f
  | string => exact sizeString_eq v
  | vector t ih => exact sizeElems_eq fun x _ => ih x
  | set t ih => exact sizeElems_eq fun x _ => ih x
  | unorderedSet t ih => exact sizeElems_eq fun x _ => ih x
  | map k w ihk ihw => exact sizePairs_eq (fun x _ => ihk x.1) (fun x _ => ihw x.2)
  | unorderedMap k w ihk ihw => exact sizePairs_eq (fun x _ => ihk x.1) (fun x _ => ihw x.2)

end Ven
