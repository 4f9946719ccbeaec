import Ven.Encoding

namespace Ven

open ObjType

/-- The spans follow each other without gaps from `p` to `q`. -/
def Tiles : Nat → List (Nat × Nat) → Nat → Prop
  | p, [], q => p = q
  | p, w :: ws, q => w.1 = p ∧ Tiles (p + w.2) ws q

theorem Tiles.append {p q r : Nat} {xs ys : List (Nat × Nat)} (a : Tiles p xs q) (b : Tiles q ys r) :
    Tiles p (xs ++ ys) r := by
  induction xs generalizing p with
  | nil =>
    cases a
    exact b
  | cons x xs ih => exact ⟨a.1, ih a.2⟩

/-- An encoding step that leaves `data` at the position and moves behind it. -/
structure Wrote (s t : SetLoop) (data : List UInt8) : Prop where
  mem : t.mem = Bytes.writeAt s.mem s.pos data
  pos : t.pos = s.pos + data.length
  writes : ∃ ws, t.writes = s.writes ++ ws ∧ Tiles s.pos ws (s.pos + data.length)

theorem Wrote.refl (s : SetLoop) : Wrote s s [] :=
  ⟨(Bytes.writeAt_nil _ _).symm, rfl, [], (List.append_nil _).symm, rfl⟩

theorem Wrote.trans {s t u : SetLoop} {xs ys : List UInt8} (a : Wrote s t xs) (b : Wrote t u ys) :
    Wrote s u (xs ++ ys) := by
  obtain ⟨ws, hws, tws⟩ := a.writes
  obtain ⟨vs, hvs, tvs⟩ := b.writes
  rw [a.pos, Nat.add_assoc] at tvs
  refine ⟨?_, ?_, ws ++ vs, ?_, ?_⟩
  · rw [b.mem, a.mem, a.pos, Bytes.writeAt_append]
  · rw [b.pos, a.pos, List.length_append, Nat.add_assoc]
  · rw [hvs, hws, List.append_assoc]
  · rw [List.length_append]
    exact tws.append tvs

/-- A `set` that leaves `data` at `pos`, returns its length and writes nothing else. -/
structure Puts (m : Bytes.Memory) (pos : Nat) (p : Put) (data : List UInt8) : Prop where
  mem : p.mem = Bytes.writeAt m pos data
  ret : p.ret = data.length
  writes : Tiles pos p.writes (pos + data.length)

/-- `set` leaves an object's encoding wherever it fits. -/
def Sets {α : Type} (len : Nat) (set : α → Bytes.Memory → Nat → Put) (enc : α → List UInt8) (x : α) : Prop :=
  ∀ m pos, pos + (enc x).length ≤ len → Puts m pos (set x m pos) (enc x)

theorem setCnt_wrote {m : Bytes.Memory} {pos : Nat} (cnt : Nat) (h : pos + 4 < 4294967296) :
    Wrote ⟨m, pos, []⟩ (Buf.setCnt m pos cnt) (Bytes.leBytes 4 cnt) := by
  refine ⟨rfl, ?_, [(pos, 4)], ?_, rfl, ?_⟩
  · rw [Bytes.length_leBytes]
    exact add32_of_lt h
  · change [(pos, (Bytes.leBytes 4 cnt).length)] = _
    rw [Bytes.length_leBytes]
    rfl
  · rw [Bytes.length_leBytes]
    rfl

section
variable {len : Nat} (hlen : len < 4294967296)
include hlen

theorem putElem_wrote {α : Type} {set : α → Bytes.Memory → Nat → Put} {enc : α → List UInt8} {x : α}
    (h : Sets len set enc x) {s : SetLoop} (hfit : s.pos + (enc x).length ≤ len) :
    Wrote s (Buf.putElem set s x) (enc x) := by
  have hp := h s.mem s.pos hfit
  refine ⟨hp.mem, ?_, _, rfl, hp.writes⟩
  change add32 s.pos (set x s.mem s.pos).ret = _
  rw [hp.ret, add32_of_lt (by omega)]

theorem putPair_wrote {α β : Type} {set₁ : α → Bytes.Memory → Nat → Put}
    {set₂ : β → Bytes.Memory → Nat → Put} {enc₁ : α → List UInt8} {enc₂ : β → List UInt8} {x : α × β}
    (h₁ : Sets len set₁ enc₁ x.1) (h₂ : Sets len set₂ enc₂ x.2) {s : SetLoop}
    (hfit : s.pos + (enc₁ x.1 ++ enc₂ x.2).length ≤ len) :
    Wrote s (Buf.putPair set₁ set₂ s x) (enc₁ x.1 ++ enc₂ x.2) := by
  rw [List.length_append] at hfit
  have hk := putElem_wrote hlen h₁ (s := s) (by omega)
  exact hk.trans (putElem_wrote hlen h₂ (by rw [hk.pos]; omega))

/-- `body` leaves an element's encoding wherever it fits. -/
def Body {α : Type} (len : Nat) (body : SetLoop → α → SetLoop) (enc : α → List UInt8) (xs : List α) : Prop :=
  ∀ x ∈ xs, ∀ s : SetLoop, s.pos + (enc x).length ≤ len → Wrote s (body s x) (enc x)

omit hlen in
theorem foldl_wrote {α : Type} {body : SetLoop → α → SetLoop} {enc : α → List UInt8} {xs : List α}
    (h : Body len body enc xs) {s : SetLoop} (hfit : s.pos + (xs.flatMap enc).length ≤ len) :
    Wrote s (xs.foldl body s) (xs.flatMap enc) := by
  induction xs generalizing s with
  | nil => exact Wrote.refl s
  | cons x xs ih =>
    rw [List.flatMap_cons, List.length_append] at hfit
    have hx := h x List.mem_cons_self s (by omega)
    rw [List.flatMap_cons, List.foldl_cons]
    exact hx.trans (ih (fun y hy => h y (List.mem_cons_of_mem _ hy)) (by rw [hx.pos]; omega))

theorem putLoop_wrote {α : Type} {body : SetLoop → α → SetLoop} {enc : α → List UInt8} {xs : List α}
    (h : Body len body enc xs) (hpos : ∀ x ∈ xs, 0 < (enc x).length) {m : Bytes.Memory} {pos : Nat}
    (hfit : pos + (encItems enc xs).length ≤ len) :
    Wrote ⟨m, pos, []⟩ (Buf.putLoop body xs m pos) (encItems enc xs) := by
  rw [length_encItems] at hfit
  have hcount := length_le_flatMap hpos
  have hcnt : u32 xs.length = xs.length := u32_of_lt (by omega)
  have hw := setCnt_wrote (m := m) xs.length (show pos + 4 < 4294967296 by omega)
  have hfit' : (Buf.setCnt m pos xs.length).pos + (xs.flatMap enc).length ≤ len := by
    rw [hw.pos, Bytes.length_leBytes]
    change pos + 4 + _ ≤ len
    omega
  rw [Buf.putLoop, hcnt]
  exact hw.trans (foldl_wrote h hfit')

theorem putString_spec {bs : List UInt8} {m : Bytes.Memory} {pos : Nat}
    (hfit : pos + (encItems (fun b => [b]) bs).length ≤ len) :
    (Buf.putString bs m pos).mem = Bytes.writeAt m pos (encItems (fun b => [b]) bs) ∧
      Tiles pos (Buf.putString bs m pos).writes (pos + (encItems (fun b => [b]) bs).length) := by
  rw [length_encItems, List.flatMap_singleton'] at hfit
  have hcnt : u32 bs.length = bs.length := u32_of_lt (by omega)
  have hw := setCnt_wrote (m := m) bs.length (show pos + 4 < 4294967296 by omega)
  have hpos : (Buf.setCnt m pos bs.length).pos = pos + 4 := by
    rw [hw.pos, Bytes.length_leBytes]
  obtain ⟨ws, hws, htiles⟩ := hw.writes
  rw [Bytes.length_leBytes] at htiles
  rw [encItems_bytes]
  unfold Buf.putString
  dsimp only
  rw [hcnt, List.take_length]
  constructor
  · change Bytes.writeAt (Buf.setCnt m pos bs.length).mem (Buf.setCnt m pos bs.length).pos bs = _
    rw [hw.mem, hpos, Bytes.writeAt_append, Bytes.length_leBytes]
  · change Tiles pos ((Buf.setCnt m pos bs.length).writes ++ [((Buf.setCnt m pos bs.length).pos, bs.length)]) _
    rw [hws, hpos, List.length_append, Bytes.length_leBytes]
    exact Tiles.append htiles ⟨rfl, Nat.add_assoc _ _ _⟩

theorem checked_puts {size : Nat} {m : Bytes.Memory} {pos : Nat} {put : SetLoop} {data : List UInt8}
    (hsize : size = data.length % 4294967296) (hfit : pos + data.length ≤ len)
    (hmem : put.mem = Bytes.writeAt m pos data) (hwrites : Tiles pos put.writes (pos + data.length)) :
    Puts m pos (Buf.checked len size m pos put) data := by
  have hs : size = data.length := by omega
  have hadd : add32 pos size = pos + size := add32_of_lt (by omega)
  unfold Buf.checked
  rw [if_neg (by omega)]
  exact ⟨hmem, hs, hwrites⟩

theorem putLoop_puts {α : Type} {body : SetLoop → α → SetLoop} {enc : α → List UInt8} {xs : List α}
    (h : Body len body enc xs) (hpos : ∀ x ∈ xs, 0 < (enc x).length) {size : Nat}
    (hsize : size = (encItems enc xs).length % 4294967296) {m : Bytes.Memory} {pos : Nat}
    (hfit : pos + (encItems enc xs).length ≤ len) :
    Puts m pos (Buf.checked len size m pos (Buf.putLoop body xs m pos)) (encItems enc xs) := by
  have hw := putLoop_wrote hlen h hpos (m := m) hfit
  obtain ⟨ws, hws, htiles⟩ := hw.writes
  apply checked_puts hlen hsize hfit hw.mem
  rw [hws]
  exact htiles

theorem putElem_body {t : Ty} (h : ∀ x, Sets len (Buf.set len t) t.enc x) (xs : List t.Obj) :
    Body len (Buf.putElem (Buf.set len t)) t.enc xs :=
  fun x _ _ hfit => putElem_wrote hlen (h x) hfit

theorem putPair_body {k w : Ty} (hk : ∀ x, Sets len (Buf.set len k) k.enc x)
    (hw : ∀ x, Sets len (Buf.set len w) w.enc x) (xs : List (k.Obj × w.Obj)) :
    Body len (Buf.putPair (Buf.set len k) (Buf.set len w)) (fun kv => k.enc kv.1 ++ w.enc kv.2) xs :=
  fun x _ _ hfit => putPair_wrote hlen (hk x.1) (hw x.2) hfit

/-- The write pass leaves the encoding, and no inner capacity check fires where it fits. -/
theorem set_spec (t : Ty) (v : t.Obj) : Sets len (Buf.set len t) t.enc v := by
  induction t with
  | fixed f =>
    intro m pos hfit
    have hsize := size_eq (.fixed f) v
    have htake : v.1.take (Sizer.size (.fixed f) v) = Ty.enc (.fixed f) v := by
      have hl : v.1.length = (Ty.enc (.fixed f) v).length := rfl
      rw [List.take_of_length_le (by omega)]
      rfl
    refine checked_puts hlen hsize hfit ?_ ?_
    · change Bytes.writeAt m pos (v.1.take _) = _
      rw [htake]
    · change Tiles pos [(pos, (v.1.take _).length)] _
      rw [htake]
      exact ⟨rfl, rfl⟩
  | string =>
    intro m pos hfit
    obtain ⟨hmem, hwrites⟩ := putString_spec hlen hfit
    exact checked_puts hlen (size_eq .string v) hfit hmem hwrites
  | vector t ih =>
    exact fun m pos => putLoop_puts hlen (putElem_body hlen ih _) (fun x _ => enc_pos t x)
      (size_eq (.vector t) v)
  | set t ih =>
    exact fun m pos => putLoop_puts hlen (putElem_body hlen ih _) (fun x _ => enc_pos t x)
      (size_eq (.set t) v)
  | unorderedSet t ih =>
    exact fun m pos => putLoop_puts hlen (putElem_body hlen ih _) (fun x _ => enc_pos t x)
      (size_eq (.unorderedSet t) v)
  | map k w ihk ihw =>
    exact fun m pos => putLoop_puts hlen (putPair_body hlen ihk ihw _) (fun x _ => encPair_pos x)
      (size_eq (.map k w) v)
  | unorderedMap k w ihk ihw =>
    exact fun m pos => putLoop_puts hlen (putPair_body hlen ihk ihw _) (fun x _ => encPair_pos x)
      (size_eq (.unorderedMap k w) v)

end

end Ven
