import Ven.BufGet

namespace Ven

open ObjType

namespace Decoder

/-- Two steps in a row, the second from where the first ends. -/
def pair {α β : Type} (step₁ : Nat → Option (α × Nat)) (step₂ : Nat → Option (β × Nat)) (pos : Nat) :
    Option ((α × β) × Nat) :=
  (step₁ pos).bind fun x => (step₂ x.2).map fun y => ((x.1, y.1), y.2)

/-- `cnt` steps in a row. -/
def many {α : Type} (step : Nat → Option (α × Nat)) : Nat → Nat → Option (List α × Nat)
  | 0, pos => some ([], pos)
  | cnt + 1, pos => (step pos).bind fun x => (many step cnt x.2).map fun xs => (x.1 :: xs.1, xs.2)

/-- A step moves on, and not past `len`. -/
def Within {α : Type} (len : Nat) (step : Nat → Option (α × Nat)) : Prop :=
  ∀ pos x q, step pos = some (x, q) → pos < q ∧ q ≤ len

/-- Whatever the first step accepts, the second accepts in the same way. -/
def Extends {α : Type} (step step' : Nat → Option (α × Nat)) : Prop :=
  ∀ pos x, step pos = some x → step' pos = some x

section
variable {α β : Type} {len : Nat} {step₁ step₁' : Nat → Option (α × Nat)} {step₂ step₂' : Nat → Option (β × Nat)}

theorem pair_some {pos : Nat} {x : α × β} {q : Nat} (h : pair step₁ step₂ pos = some (x, q)) :
    ∃ p, step₁ pos = some (x.1, p) ∧ step₂ p = some (x.2, q) := by
  obtain ⟨⟨a, p⟩, ha, h⟩ := Option.bind_eq_some_iff.mp h
  obtain ⟨⟨b, q'⟩, hb, h⟩ := Option.map_eq_some_iff.mp h
  cases h
  exact ⟨p, ha, hb⟩

theorem many_succ {cnt pos : Nat} {xs : List α} {q : Nat} (h : many step₁ (cnt + 1) pos = some (xs, q)) :
    ∃ x p ys, step₁ pos = some (x, p) ∧ many step₁ cnt p = some (ys, q) ∧ xs = x :: ys := by
  obtain ⟨⟨x, p⟩, hx, h⟩ := Option.bind_eq_some_iff.mp h
  obtain ⟨⟨ys, q'⟩, hys, h⟩ := Option.map_eq_some_iff.mp h
  cases h
  exact ⟨x, p, ys, hx, hys, rfl⟩

theorem many_cons {cnt pos p q : Nat} {x : α} {ys : List α} (hx : step₁ pos = some (x, p))
    (hys : many step₁ cnt p = some (ys, q)) : many step₁ (cnt + 1) pos = some (x :: ys, q) := by
  unfold many
  rw [hx, Option.bind_some, hys, Option.map_some]

theorem pair_within (h₁ : Within len step₁) (h₂ : Within len step₂) : Within len (pair step₁ step₂) := by
  intro pos x q h
  obtain ⟨p, hx, hy⟩ := pair_some h
  have hp := h₁ _ _ _ hx
  have hq := h₂ _ _ _ hy
  omega

/-- Each of the steps takes at least one byte. -/
theorem many_within (h : Within len step₁) {cnt pos : Nat} {xs : List α} {q : Nat} (hpos : pos ≤ len)
    (hmany : many step₁ cnt pos = some (xs, q)) : pos + cnt ≤ q ∧ q ≤ len := by
  induction cnt generalizing pos xs with
  | zero =>
    cases hmany
    exact ⟨Nat.le_refl _, hpos⟩
  | succ cnt ih =>
    obtain ⟨x, p, ys, hx, hys, _⟩ := many_succ hmany
    have hp := h _ _ _ hx
    have hq := ih hp.2 hys
    omega

theorem pair_extends (h₁ : Extends step₁ step₁') (h₂ : Extends step₂ step₂') :
    Extends (pair step₁ step₂) (pair step₁' step₂') := by
  rintro pos ⟨x, q⟩ h
  obtain ⟨p, hx, hy⟩ := pair_some h
  unfold pair
  rw [h₁ _ _ hx, Option.bind_some, h₂ _ _ hy, Option.map_some]

theorem many_extends (h : Extends step₁ step₁') (cnt : Nat) : Extends (many step₁ cnt) (many step₁' cnt) := by
  induction cnt with
  | zero => exact fun pos x hx => hx
  | succ cnt ih =>
    rintro pos ⟨xs, q⟩ hmany
    obtain ⟨x, p, ys, hx, hys, rfl⟩ := many_succ hmany
    exact many_cons (h _ _ hx) (ih _ _ hys)

end

-- `m` are the bytes from `buf_` on and `len` is `len_`, as in the code; the sums are exact here
variable (I : Impl) (m : Bytes.Memory) (len : Nat)

def fixed (n pos : Nat) : Option (FixedObj n × Nat) :=
  if pos + n ≤ len then some (⟨Bytes.readAt m pos n, Bytes.length_readAt m pos n⟩, pos + n) else none

def count (pos : Nat) : Option (Nat × Nat) :=
  (fixed m len 4 pos).map fun c => (Bytes.leNat c.1.1, c.2)

def string (pos : Nat) : Option (List UInt8 × Nat) :=
  (count m len pos).bind fun c => (fixed m len c.1 c.2).map fun s => (s.1.1, s.2)

/-- A count and as many elements, of which `make` makes a container. -/
def items {α β : Type} (step : Nat → Option (α × Nat)) (make : List α → β) (pos : Nat) : Option (β × Nat) :=
  (count m len pos).bind fun c => (many step c.1 c.2).map fun xs => (make xs.1, xs.2)

/-- The object whose bytes lie at a position, and where they end; there is none unless all of its bytes, those of
every element included, lie inside the buffer. -/
def decode : (t : Ty) → Nat → Option (t.Obj × Nat)
  | .fixed f, pos => fixed m len f.bytes pos
  | .string, pos => string m len pos
  | .vector t, pos => items m len (decode t) (List.foldl (fun (v : List t.Obj) x => v ++ [x]) []) pos
  | .set t, pos =>
    items m len (decode t) (List.foldl (insertSet I (.set t) t.type) Distinct.empty) pos
  | .unorderedSet t, pos =>
    items m len (decode t) (List.foldl (insertSet I (.unorderedSet t) t.type) Distinct.empty) pos
  | .map k v, pos =>
    items m len (pair (decode k) (decode v)) (List.foldl (insertMap I (.map k v) k.type v.type) Distinct.empty) pos
  | .unorderedMap k v, pos =>
    items m len (pair (decode k) (decode v))
      (List.foldl (insertMap I (.unorderedMap k v) k.type v.type) Distinct.empty) pos

section
variable {m : Bytes.Memory} {len : Nat}

theorem fixed_some {n pos q : Nat} {x : FixedObj n} (h : fixed m len n pos = some (x, q)) :
    pos + n ≤ len ∧ x.1 = Bytes.readAt m pos n ∧ q = pos + n := by
  unfold fixed at h
  split at h
  next hfit =>
    cases h
    exact ⟨hfit, rfl, rfl⟩
  next => cases h

theorem fixed_fits {n pos : Nat} (h : pos + n ≤ len) :
    fixed m len n pos = some (⟨Bytes.readAt m pos n, Bytes.length_readAt m pos n⟩, pos + n) := if_pos h

theorem count_some {pos cnt q : Nat} (h : count m len pos = some (cnt, q)) :
    pos + 4 ≤ len ∧ cnt = Bytes.leNat (Bytes.readAt m pos 4) ∧ q = pos + 4 := by
  obtain ⟨⟨c, p⟩, hc, h⟩ := Option.map_eq_some_iff.mp h
  obtain ⟨hfit, hval, rfl⟩ := fixed_some hc
  cases h
  exact ⟨hfit, congrArg Bytes.leNat hval, rfl⟩

theorem count_fits {pos : Nat} (h : pos + 4 ≤ len) :
    count m len pos = some (Bytes.leNat (Bytes.readAt m pos 4), pos + 4) := by
  unfold count
  rw [fixed_fits h, Option.map_some]

theorem string_some {pos q : Nat} {s : List UInt8} (h : string m len pos = some (s, q)) :
    ∃ cnt, count m len pos = some (cnt, pos + 4) ∧ s = Bytes.readAt m (pos + 4) cnt ∧ q = pos + 4 + cnt ∧ q ≤ len := by
  obtain ⟨⟨cnt, p⟩, hc, hrest⟩ := Option.bind_eq_some_iff.mp h
  obtain ⟨⟨s', q'⟩, hs, hmake⟩ := Option.map_eq_some_iff.mp hrest
  obtain ⟨_, _, rfl⟩ := count_some hc
  obtain ⟨hfit, hval, rfl⟩ := fixed_some hs
  cases hmake
  exact ⟨cnt, hc, hval, rfl, hfit⟩

theorem items_some {α β : Type} {step : Nat → Option (α × Nat)} {make : List α → β} {pos q : Nat} {v : β}
    (h : items m len step make pos = some (v, q)) :
    ∃ cnt xs, count m len pos = some (cnt, pos + 4) ∧ many step cnt (pos + 4) = some (xs, q) ∧ v = make xs := by
  obtain ⟨⟨cnt, p⟩, hc, hrest⟩ := Option.bind_eq_some_iff.mp h
  obtain ⟨⟨xs, q'⟩, hxs, hmake⟩ := Option.map_eq_some_iff.mp hrest
  obtain ⟨_, _, rfl⟩ := count_some hc
  cases hmake
  exact ⟨cnt, xs, hc, hxs, rfl⟩

theorem items_within {α β : Type} {step : Nat → Option (α × Nat)} {make : List α → β} (h : Within len step) :
    Within len (items m len step make) := by
  intro pos v q hitems
  obtain ⟨cnt, xs, hc, hxs, _⟩ := items_some hitems
  obtain ⟨hfit, _, _⟩ := count_some hc
  have hq := many_within h hfit hxs
  omega

/-- What is decoded takes at least one byte, and all of its bytes lie inside the buffer. -/
theorem decode_within (I : Impl) (t : Ty) : Within len (decode I m len t) := by
  induction t with
  | fixed f =>
    intro pos x q h
    obtain ⟨hfit, _, rfl⟩ := fixed_some h
    have hn := f.bytes_pos
    omega
  | string =>
    intro pos s q h
    obtain ⟨cnt, _, _, rfl, hfit⟩ := string_some h
    omega
  | vector t ih => exact items_within ih
  | set t ih => exact items_within ih
  | unorderedSet t ih => exact items_within ih
  | map k v ihk ihv => exact items_within (pair_within ihk ihv)
  | unorderedMap k v ihk ihv => exact items_within (pair_within ihk ihv)

section
variable {m' : Bytes.Memory} {len' : Nat} (hlen : len ≤ len') (hm : ∀ i, i < len → m i = m' i)
include hlen hm

theorem fixed_extends (n : Nat) : Extends (fixed m len n) (fixed m' len' n) := by
  rintro pos ⟨x, q⟩ hx
  obtain ⟨hfit, hval, rfl⟩ := fixed_some hx
  have hsame : Bytes.readAt m pos n = Bytes.readAt m' pos n := Bytes.readAt_congr fun i _ hi => hm i (by omega)
  rw [fixed_fits (by omega)]
  exact congrArg (fun y => some (y, pos + n)) (Subtype.ext (hval.trans hsame).symm)

theorem count_extends : Extends (count m len) (count m' len') := by
  rintro pos ⟨cnt, q⟩ hc
  obtain ⟨⟨c, p⟩, hfixed, hcount⟩ := Option.map_eq_some_iff.mp hc
  unfold count
  rw [fixed_extends hlen hm 4 _ _ hfixed, Option.map_some, hcount]

theorem items_extends {α β : Type} {step step' : Nat → Option (α × Nat)} {make : List α → β}
    (h : Extends step step') : Extends (items m len step make) (items m' len' step' make) := by
  rintro pos ⟨v, q⟩ hitems
  obtain ⟨cnt, xs, hc, hxs, rfl⟩ := items_some hitems
  unfold items
  rw [count_extends hlen hm _ _ hc, Option.bind_some, many_extends h _ _ _ hxs, Option.map_some]

/-- More bytes behind the end change nothing of what is decoded. -/
theorem decode_extends (I : Impl) (t : Ty) : Extends (decode I m len t) (decode I m' len' t) := by
  induction t with
  | fixed f => exact fixed_extends hlen hm f.bytes
  | string =>
    rintro pos ⟨s, q⟩ h
    obtain ⟨⟨cnt, p⟩, hc, hrest⟩ := Option.bind_eq_some_iff.mp h
    obtain ⟨⟨x, q'⟩, hx, hmake⟩ := Option.map_eq_some_iff.mp hrest
    change string m' len' pos = _
    unfold string
    rw [count_extends hlen hm _ _ hc, Option.bind_some, fixed_extends hlen hm cnt _ _ hx, Option.map_some]
    exact congrArg some hmake
  | vector t ih => exact items_extends hlen hm ih
  | set t ih => exact items_extends hlen hm ih
  | unorderedSet t ih => exact items_extends hlen hm ih
  | map k v ihk ihv => exact items_extends hlen hm (pair_extends ihk ihv)
  | unorderedMap k v ihk ihv => exact items_extends hlen hm (pair_extends ihk ihv)

end

end

end Decoder

end Ven
