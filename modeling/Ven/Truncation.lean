import Ven.InventedElements
import Ven.RoundTrip

namespace Ven

open ObjType Archive BufConv Decoder

/-- How many bytes the first check of a `get` asks for. -/
def Ty.head : Ty → Nat
  | .fixed f => f.bytes
  | _ => 4

/-- Of the fields that are not all there, none finds room for its head in the bytes that are left. -/
def Stopped : Nat → (ts : List Ty) → Packet ts → Prop
  | _, [], _ => True
  | left, t :: ts, p =>
    if (t.enc p.1).length ≤ left then Stopped (left - (t.enc p.1).length) ts p.2 else ∀ u ∈ t :: ts, left < u.head

/-- The first field that is not all there finds room for its head. -/
def Begun : Nat → (ts : List Ty) → Packet ts → Prop
  | _, [], _ => False
  | left, t :: ts, p =>
    if (t.enc p.1).length ≤ left then Begun (left - (t.enc p.1).length) ts p.2 else t.head ≤ left

/-- Every field of `q` equals the one of `p`, or is the one of `e`. -/
def Packet.Kept : (ts : List Ty) → Packet ts → Packet ts → Packet ts → Prop
  | [], _, _, _ => True
  | t :: ts, p, e, q => (t.Same p.1 q.1 ∨ q.1 = e.1) ∧ Kept ts p.2 e.2 q.2

/-- `P` holds of every field of a read pass: of the field in `p`, of where its bytes start in the encoding of `p`, of
the target and of what `get` makes of it. -/
def Archive.EachGet (I : Impl) (P : (t : Ty) → t.Obj → Nat → t.Obj → Got t.Obj → Prop) :
    (ts : List Ty) → Packet ts → Nat → Archive → Packet ts → Prop
  | [], _, _, _, _ => True
  | t :: ts, p, start, ar, e =>
    P t p.1 start e.1 (Buf.get I ar.mem ar.len t e.1 ar.pos) ∧
      EachGet I P ts p.2 (start + (t.enc p.1).length) (ar.shl I t e.1).1 e.2

/-- A field is decoded from no other field's bytes. -/
def OwnBytes (t : Ty) (x : t.Obj) (start : Nat) (_ : t.Obj) (g : Got t.Obj) : Prop :=
  Between start (start + (t.enc x).length) g.reads

/-- A field is untouched, or all of its bytes are in the buffer and it is decoded from them. -/
def AllOrNothing (I : Impl) (m : Bytes.Memory) (len : Nat) (t : Ty) (x : t.Obj) (start : Nat) (w : t.Obj)
    (g : Got t.Obj) : Prop :=
  g.val = w ∧ g.reads = [] ∨
    (∃ y, decode I m len t start = some (y, start + (t.enc x).length)) ∧ t.Same x g.val ∧ OwnBytes t x start w g

/-- The buffer holds the first bytes of `data` from `pos` on, and ends inside of it. -/
structure CutOff (m : Bytes.Memory) (len pos : Nat) (data : List UInt8) : Prop where
  start : pos ≤ len
  stop : len < pos + data.length
  bytes : Bytes.readAt m pos (len - pos) = data.take (len - pos)

section
variable {m : Bytes.Memory} {len : Nat}

theorem CutOff.whole {pos : Nat} {xs ys : List UInt8} (h : CutOff m len pos (xs ++ ys)) (hfit : xs.length ≤ len - pos) :
    Holds m len pos xs ∧ CutOff m len (pos + xs.length) ys := by
  have hstart := h.start
  have hstop := h.stop
  have hbytes := h.bytes
  rw [List.length_append] at hstop
  rw [show len - pos = xs.length + (len - pos - xs.length) by omega, Bytes.readAt_add, List.take_length_add_append] at hbytes
  obtain ⟨hx, hy⟩ := List.append_inj hbytes (Bytes.length_readAt _ _ _)
  refine ⟨⟨by omega, hx⟩, by omega, by omega, ?_⟩
  rw [show len - (pos + xs.length) = len - pos - xs.length by omega]
  exact hy

theorem CutOff.part {pos : Nat} {xs ys : List UInt8} (h : CutOff m len pos (xs ++ ys)) (hcut : ¬xs.length ≤ len - pos) :
    CutOff m len pos xs := by
  have hstart := h.start
  refine ⟨hstart, by omega, ?_⟩
  rw [h.bytes, List.take_append_of_le_length (by omega)]

/-- The missing bytes, put back. -/
theorem CutOff.restore {pos : Nat} {data : List UInt8} (h : CutOff m len pos data) :
    Holds (Bytes.writeAt m pos data) (pos + data.length) pos data ∧
      ∀ i, i < len → m i = Bytes.writeAt m pos data i := by
  refine ⟨⟨Nat.le_refl _, Bytes.readAt_writeAt_same m pos data⟩, fun i hi => ?_⟩
  by_cases hlow : i < pos
  · exact (Bytes.writeAt_outside (Or.inl hlow)).symm
  · have hstop := h.stop
    obtain ⟨d, rfl⟩ := Nat.exists_eq_add_of_le (Nat.not_lt.mp hlow)
    have hd : d < data.length := by omega
    have hsame : (Bytes.readAt m pos (len - pos))[d]? = (data.take (len - pos))[d]? := by rw [h.bytes]
    have hdl : d < len - pos := by omega
    rw [Bytes.writeAt_inside hd]
    simpa [Bytes.readAt, hdl, hd, List.getElem?_take] using hsame

theorem many_enc {α β : Type} {step : Nat → Option (β × Nat)} {enc : α → List UInt8} {xs : List α}
    (hstep : ∀ x ∈ xs, ∀ pos, Holds m len pos (enc x) → ∃ y, step pos = some (y, pos + (enc x).length)) {pos : Nat}
    (h : Holds m len pos (xs.flatMap enc)) :
    ∃ ys, many step xs.length pos = some (ys, pos + (xs.flatMap enc).length) := by
  induction xs generalizing pos with
  | nil => exact ⟨[], rfl⟩
  | cons x xs ih =>
    rw [List.flatMap_cons] at h ⊢
    obtain ⟨hx, hxs⟩ := holds_append.mp h
    obtain ⟨y, hy⟩ := hstep x List.mem_cons_self pos hx
    obtain ⟨ys, hys⟩ := ih (fun z hz => hstep z (List.mem_cons_of_mem _ hz)) hxs
    rw [List.length_append, ← Nat.add_assoc]
    exact ⟨y :: ys, many_cons hy hys⟩

theorem pair_enc {k v : Ty} {I : Impl}
    (hk : ∀ x pos, Holds m len pos (k.enc x) → ∃ y, decode I m len k pos = some (y, pos + (k.enc x).length))
    (hv : ∀ x pos, Holds m len pos (v.enc x) → ∃ y, decode I m len v pos = some (y, pos + (v.enc x).length))
    (x : k.Obj × v.Obj) (pos : Nat) (h : Holds m len pos (k.enc x.1 ++ v.enc x.2)) :
    ∃ y, pair (decode I m len k) (decode I m len v) pos = some (y, pos + (k.enc x.1 ++ v.enc x.2).length) := by
  obtain ⟨h₁, h₂⟩ := holds_append.mp h
  obtain ⟨y₁, hy₁⟩ := hk x.1 pos h₁
  obtain ⟨y₂, hy₂⟩ := hv x.2 _ h₂
  unfold pair
  rw [hy₁, Option.bind_some, hy₂, Option.map_some, List.length_append, ← Nat.add_assoc]
  exact ⟨_, rfl⟩

section
variable (hlen : len < 4294967296)
include hlen

theorem items_enc {α β γ : Type} {step : Nat → Option (β × Nat)} {make : List β → γ} {enc : α → List UInt8}
    {xs : List α} (hpos : ∀ x ∈ xs, 0 < (enc x).length)
    (hstep : ∀ x ∈ xs, ∀ pos, Holds m len pos (enc x) → ∃ y, step pos = some (y, pos + (enc x).length)) {pos : Nat}
    (h : Holds m len pos (encItems enc xs)) :
    ∃ v, items m len step make pos = some (v, pos + (encItems enc xs).length) := by
  have hcount := length_le_flatMap hpos
  have hfit := h.1
  rw [length_encItems] at hfit ⊢
  obtain ⟨hc, hitems⟩ := holds_append.mp h
  have hread := hc.2
  rw [Bytes.length_leBytes] at hread hitems
  obtain ⟨ys, hys⟩ := many_enc hstep hitems
  have hcnt : count m len pos = some (xs.length, pos + 4) := by
    rw [count_fits (by omega), hread, Bytes.leNat_leBytes (by omega)]
  unfold items
  rw [hcnt, Option.bind_some, hys, Option.map_some, ← Nat.add_assoc]
  exact ⟨_, rfl⟩

theorem string_enc (s : List UInt8) {pos : Nat} (h : Holds m len pos (encItems (fun b => [b]) s)) :
    ∃ y, string m len pos = some (y, pos + (encItems (fun b => [b]) s).length) := by
  rw [encItems_bytes] at h ⊢
  have hfit := h.1
  rw [List.length_append, Bytes.length_leBytes] at hfit ⊢
  have hread := (holds_append.mp h).1.2
  rw [Bytes.length_leBytes] at hread
  have hcnt : count m len pos = some (s.length, pos + 4) := by
    rw [count_fits (by omega), hread, Bytes.leNat_leBytes (by omega)]
  unfold string
  rw [hcnt, Option.bind_some, fixed_fits (show pos + 4 + s.length ≤ len by omega), Option.map_some, ← Nat.add_assoc]
  exact ⟨_, rfl⟩

/-- The strict decoder accepts an encoding. -/
theorem decode_enc (I : Impl) (t : Ty) (x : t.Obj) {pos : Nat} (h : Holds m len pos (t.enc x)) :
    ∃ y, decode I m len t pos = some (y, pos + (t.enc x).length) := by
  induction t generalizing pos with
  | fixed f =>
    have hl : (Ty.enc (.fixed f) x).length = f.bytes := Subtype.property x
    have hfit := h.1
    rw [hl] at hfit ⊢
    exact ⟨_, fixed_fits hfit⟩
  | string => exact string_enc hlen x h
  | vector t ih => exact items_enc hlen (fun x _ => enc_pos t x) (fun x _ _ h => ih x h) h
  | set t ih => exact items_enc hlen (fun x _ => enc_pos t x) (fun x _ _ h => ih x h) h
  | unorderedSet t ih => exact items_enc hlen (fun x _ => enc_pos t x) (fun x _ _ h => ih x h) h
  | map k v ihk ihv =>
    exact items_enc hlen (fun x _ => encPair_pos x)
      (fun x _ => pair_enc (fun x _ h => ihk x h) (fun x _ h => ihv x h) x) h
  | unorderedMap k v ihk ihv =>
    exact items_enc hlen (fun x _ => encPair_pos x)
      (fun x _ => pair_enc (fun x _ h => ihk x h) (fun x _ h => ihv x h) x) h

omit hlen in
/-- The strict decoder accepts nothing of an encoding that is cut off. -/
theorem decode_cut (I : Impl) {t : Ty} {x : t.Obj} {pos : Nat} (h : CutOff m len pos (t.enc x))
    (hend : pos + (t.enc x).length < 4294967296) : decode I m len t pos = none := by
  cases hd : decode I m len t pos with
  | none => rfl
  | some y =>
    obtain ⟨hholds, hsame⟩ := h.restore
    have hstop := h.stop
    have hmore := decode_extends (Nat.le_of_lt hstop) hsame I t pos y hd
    obtain ⟨z, hz⟩ := decode_enc hend I t x hholds
    rw [hz] at hmore
    cases hmore
    have hq := (decode_within I t pos _ _ hd).2
    omega

end

theorem getCnt_short {pos : Nat} (h : len < pos + 4) (hend : pos + 4 < 4294967296) :
    Buf.getCnt m len pos = (⟨0, 0, []⟩, pos) := by
  have hadd : add32 pos 4 = pos + 4 := add32_of_lt hend
  have hsize : Sizer.sizeFixed .uint32 = 4 := rfl
  have hpos : add32 pos 0 = pos := add32_of_lt (by omega)
  unfold Buf.getCnt Buf.getFixed
  dsimp only
  rw [hsize, if_pos (by omega)]
  exact congrArg (Prod.mk _) hpos

theorem getLoop_short {γ : Type} (body : GetLoop γ → GetLoop γ) (v : γ) {pos : Nat} (h : len < pos + 4)
    (hend : pos + 4 < 4294967296) : Buf.getLoop m len body v pos = ⟨v, 0, []⟩ := by
  unfold Buf.getLoop
  rw [getCnt_short h hend]
  rfl

/-- Without room for the head nothing is read, and the cursor stays. -/
theorem get_short (I : Impl) {t : Ty} (w : t.Obj) {pos : Nat} (h : len < pos + t.head)
    (hend : pos + t.head < 4294967296) : Buf.get I m len t w pos = ⟨w, 0, []⟩ := by
  cases t with
  | fixed f =>
    have hhead : Ty.head (.fixed f) = f.bytes := rfl
    have hsize := sizeFixed_eq f
    rw [Nat.mod_eq_of_lt (by omega)] at hsize
    have hadd : add32 pos f.bytes = pos + f.bytes := add32_of_lt (by omega)
    change Buf.getFixed m len f w pos = _
    unfold Buf.getFixed
    dsimp only
    rw [hsize, if_pos (by omega)]
    rfl
  | string =>
    change Buf.getString m len w pos = _
    unfold Buf.getString
    rw [getCnt_short h hend]
    rfl
  | vector t => exact getLoop_short _ _ h hend
  | set t => exact getLoop_short _ _ h hend
  | unorderedSet t => exact getLoop_short _ _ h hend
  | map k v => exact getLoop_short _ _ h hend
  | unorderedMap k v => exact getLoop_short _ _ h hend

theorem getLoop_head {α γ : Type} (hlen : len < 4294967296) {get : α → Nat → Got α} {t : α} {insert : γ → α → γ} {v : γ}
    {pos : Nat} (h : pos + 4 ≤ len) : (pos, 4) ∈ (Buf.getLoop m len (Buf.elemBody get t insert) v pos).reads := by
  obtain ⟨_, _, hreads, _⟩ := announced_fits (m := m) hlen h
  unfold Buf.getLoop
  dsimp only
  rw [iterate_reads, hreads]
  exact List.mem_append_left _ List.mem_cons_self

theorem getPairs_head {α β γ : Type} (hlen : len < 4294967296) {get₁ : α → Nat → Got α} {get₂ : β → Nat → Got β}
    {t₁ : α} {t₂ : β} {insert : γ → α × β → γ} {v : γ} {pos : Nat} (h : pos + 4 ≤ len) :
    (pos, 4) ∈ (Buf.getLoop m len (Buf.pairBody get₁ get₂ t₁ t₂ insert) v pos).reads := by
  rw [pairBody_eq]
  exact getLoop_head hlen h

/-- With room for the head it is read. -/
theorem head_read (hlen : len < 4294967296) (I : Impl) {t : Ty} (w : t.Obj) {pos : Nat} (h : pos + t.head ≤ len) :
    (pos, t.head) ∈ (Buf.get I m len t w pos).reads := by
  cases t with
  | fixed f =>
    have hhead : Ty.head (.fixed f) = f.bytes := rfl
    have hsize := sizeFixed_eq f
    rw [Nat.mod_eq_of_lt (by omega)] at hsize
    have hadd : add32 pos f.bytes = pos + f.bytes := add32_of_lt (by omega)
    change _ ∈ (Buf.getFixed m len f w pos).reads
    unfold Buf.getFixed
    dsimp only
    rw [hsize, if_neg (by omega)]
    exact List.mem_singleton.mpr rfl
  | string =>
    obtain ⟨_, _, hreads, _⟩ := announced_fits (m := m) hlen h
    change _ ∈ (Buf.getString m len w pos).reads
    unfold Buf.getString
    dsimp only
    rw [hreads]
    split
    next => exact List.mem_singleton.mpr rfl
    next => exact List.mem_append_left _ List.mem_cons_self
  | vector t => exact getLoop_head hlen h
  | set t => exact getLoop_head hlen h
  | unorderedSet t => exact getLoop_head hlen h
  | map k v => exact getPairs_head hlen h
  | unorderedMap k v => exact getPairs_head hlen h

end

theorem encItems_head {α : Type} (enc : α → List UInt8) (xs : List α) : 4 ≤ (encItems enc xs).length := by
  rw [length_encItems]
  exact Nat.le_add_right 4 _

theorem head_le_enc (t : Ty) (x : t.Obj) : t.head ≤ (t.enc x).length := by
  cases t with
  | fixed f =>
    have hl : (Ty.enc (.fixed f) x).length = f.bytes := Subtype.property x
    exact Nat.le_of_eq hl.symm
  | _ => exact encItems_head _ _

theorem head_le_bytes {ts : List Ty} (p : Packet ts) : ∀ u ∈ ts, u.head ≤ (Packet.bytes ts p).length := by
  induction ts with
  | nil => exact fun u hu => by cases hu
  | cons t ts ih =>
    intro u hu
    have hbytes : Packet.bytes (t :: ts) p = t.enc p.1 ++ Packet.bytes ts p.2 := rfl
    rw [hbytes, List.length_append]
    rcases List.mem_cons.mp hu with rfl | hu
    · have hle := head_le_enc u p.1
      omega
    · have hle := ih p.2 u hu
      omega

/-- A read pass over these bytes has come to `pos`. -/
structure ReadsAt (ar : Archive) (m : Bytes.Memory) (len pos : Nat) : Prop where
  mode : ar.mode = .read
  mem : ar.mem = m
  len : ar.len = len
  pos : ar.pos = pos

section
variable {m : Bytes.Memory} {len : Nat} {I : Impl}

theorem ReadsAt.shl {ar : Archive} {pos : Nat} (h : ReadsAt ar m len pos) (t : Ty) (w : t.Obj) :
    ReadsAt (ar.shl I t w).1 m len (add32 pos (Buf.get I m len t w pos).ret) ∧
      (ar.shl I t w).2 = (Buf.get I m len t w pos).val := by
  obtain ⟨hmode, rfl, rfl, rfl⟩ := h
  rw [shl_read I hmode]
  exact ⟨⟨hmode, rfl, rfl, rfl⟩, rfl⟩

theorem ReadsAt.get {ar : Archive} {pos : Nat} (h : ReadsAt ar m len pos) (t : Ty) (w : t.Obj) :
    Buf.get I ar.mem ar.len t w ar.pos = Buf.get I m len t w pos := by
  rw [h.mem, h.len, h.pos]

/-- From a field without room for its head on, the cursor stays where it is. -/
theorem ReadsAt.stays {ar : Archive} {pos : Nat} (h : ReadsAt ar m len pos) {t : Ty} (w : t.Obj)
    (hroom : len < pos + t.head) (hend : pos + t.head < 4294967296) :
    ReadsAt (ar.shl I t w).1 m len pos ∧ (ar.shl I t w).2 = w := by
  have hshl := h.shl (I := I) t w
  rw [get_short I w hroom hend] at hshl
  have hpos : add32 pos 0 = pos := add32_of_lt (by omega)
  rw [hpos] at hshl
  exact hshl

/-- Fields without room for their heads are left as they are. -/
theorem stays_all {P : (t : Ty) → t.Obj → Nat → t.Obj → Got t.Obj → Prop}
    (hP : ∀ t x q w, P t x q w ⟨w, 0, []⟩) {ts : List Ty} {p e : Packet ts} {q pos : Nat} {ar : Archive}
    (h : ReadsAt ar m len pos) (hroom : ∀ u ∈ ts, len < pos + u.head) (hend : ∀ u ∈ ts, pos + u.head < 4294967296) :
    EachGet I P ts p q ar e ∧ Packet.Kept ts p e (serialize I ts ar e).2 := by
  induction ts generalizing q ar with
  | nil => exact ⟨trivial, trivial⟩
  | cons t ts ih =>
    have hroom' := hroom t List.mem_cons_self
    have hend' := hend t List.mem_cons_self
    obtain ⟨hnext, hval⟩ := h.stays (I := I) e.1 hroom' hend'
    obtain ⟨hrest, hkept⟩ := @ih p.2 e.2 (q + (t.enc p.1).length) _ hnext
      (fun u hu => hroom u (List.mem_cons_of_mem _ hu)) (fun u hu => hend u (List.mem_cons_of_mem _ hu))
    refine ⟨⟨?_, hrest⟩, Or.inr hval, hkept⟩
    rw [h.get, get_short I e.1 hroom' hend']
    exact hP t p.1 q e.1

/-- Where no field that starts behind the end may read at the cursor, none of them has room for its head. -/
theorem stays_none (hlen : len < 4294967296) {P : (t : Ty) → t.Obj → Nat → t.Obj → Got t.Obj → Prop} {pos : Nat}
    (hP : ∀ t x start w g, len < start → P t x start w g → (pos, t.head) ∉ g.reads) {ts : List Ty} {p e : Packet ts}
    {start : Nat} {ar : Archive} (h : ReadsAt ar m len pos) (hstart : len < start)
    (hend : ∀ u ∈ ts, pos + u.head < 4294967296) (heach : EachGet I P ts p start ar e) :
    ∀ u ∈ ts, len < pos + u.head := by
  induction ts generalizing start ar with
  | nil => exact fun u hu => by cases hu
  | cons t ts ih =>
    obtain ⟨hget, hrest⟩ := heach
    rw [h.get] at hget
    have hroom : len < pos + t.head := by
      by_contra hfit
      exact hP t p.1 start e.1 _ hstart hget (head_read hlen I e.1 (by omega))
    obtain ⟨hnext, _⟩ := h.stays (I := I) e.1 hroom (hend t List.mem_cons_self)
    intro u hu
    rcases List.mem_cons.mp hu with rfl | hu
    · exact hroom
    · exact @ih p.2 e.2 (start + (t.enc p.1).length) _ hnext (by omega)
        (fun u hu => hend u (List.mem_cons_of_mem _ hu)) hrest u hu

/-- A field that is all there is decoded, and the pass moves on to the next. -/
theorem reads_whole (hlen : len < 4294967296) {t : Ty} {ts : List Ty} {p e : Packet (t :: ts)} {ar : Archive} {pos : Nat}
    (h : ReadsAt ar m len pos) (hcut : CutOff m len pos (Packet.bytes (t :: ts) p)) (he : t.Empty e.1)
    (hfit : (t.enc p.1).length ≤ len - pos) :
    (t.Same p.1 (Buf.get I m len t e.1 pos).val ∧
      Between pos (pos + (t.enc p.1).length) (Buf.get I m len t e.1 pos).reads ∧
      ∃ y, decode I m len t pos = some (y, pos + (t.enc p.1).length)) ∧
    ReadsAt (ar.shl I t e.1).1 m len (pos + (t.enc p.1).length) ∧
    CutOff m len (pos + (t.enc p.1).length) (Packet.bytes ts p.2) := by
  have hbytes : Packet.bytes (t :: ts) p = t.enc p.1 ++ Packet.bytes ts p.2 := rfl
  rw [hbytes] at hcut
  obtain ⟨hholds, hrest⟩ := hcut.whole hfit
  obtain ⟨hsame, hret⟩ := get_spec I hlen t p.1 e.1 he pos hholds
  obtain ⟨y, hy⟩ := decode_enc hlen I t p.1 hholds
  obtain ⟨_, _, hreads⟩ := decode_get hlen I t he pos y _ hy
  have hnext := (h.shl (I := I) t e.1).1
  have hstart := hrest.start
  rw [hret, add32_of_lt (by omega)] at hnext
  exact ⟨⟨hsame, hreads, y, hy⟩, hnext, hrest⟩

theorem room_bytes {t : Ty} {ts : List Ty} (p : Packet (t :: ts)) {pos : Nat}
    (hend : pos + (Packet.bytes (t :: ts) p).length < 4294967296) : ∀ u ∈ t :: ts, pos + u.head < 4294967296 := by
  intro u hu
  have hle := head_le_bytes p u hu
  omega

/-- A pass that stops keeps every field, and reads each from its own bytes. -/
theorem stopped_reads (hlen : len < 4294967296) {ts : List Ty} {p e : Packet ts} {ar : Archive} {pos : Nat}
    (h : ReadsAt ar m len pos) (hcut : CutOff m len pos (Packet.bytes ts p))
    (hend : pos + (Packet.bytes ts p).length < 4294967296) (he : Packet.Empty ts e)
    (hstop : Stopped (len - pos) ts p) :
    Packet.Kept ts p e (serialize I ts ar e).2 ∧ EachGet I OwnBytes ts p pos ar e ∧
      EachGet I (AllOrNothing I m len) ts p pos ar e := by
  induction ts generalizing ar pos with
  | nil => exact ⟨trivial, trivial, trivial⟩
  | cons t ts ih =>
    unfold Stopped at hstop
    by_cases hfit : (t.enc p.1).length ≤ len - pos
    · rw [if_pos hfit, Nat.sub_sub] at hstop
      obtain ⟨⟨hsame, hreads, hdec⟩, hnext, hrest⟩ := reads_whole (I := I) hlen h hcut he.1 hfit
      have hbytes : Packet.bytes (t :: ts) p = t.enc p.1 ++ Packet.bytes ts p.2 := rfl
      rw [hbytes, List.length_append] at hend
      obtain ⟨hkept, hown, hall⟩ := ih hnext hrest (by omega) he.2 hstop
      refine ⟨⟨Or.inl ?_, hkept⟩, ⟨?_, hown⟩, ?_, hall⟩
      · have hval := (h.shl (I := I) t e.1).2
        change t.Same p.1 (ar.shl I t e.1).2
        rw [hval]
        exact hsame
      · rw [h.get]
        exact hreads
      · rw [h.get]
        exact Or.inr ⟨hdec, hsame, hreads⟩
    · rw [if_neg hfit] at hstop
      have hstart := hcut.start
      have hroom : ∀ u ∈ t :: ts, len < pos + u.head := by
        intro u hu
        have hu := hstop u hu
        omega
      have hheads := room_bytes p hend
      obtain ⟨hown, hkept⟩ := stays_all (I := I) (P := OwnBytes) (p := p) (e := e) (q := pos)
        (fun t x start w r hr => by cases hr) h hroom hheads
      obtain ⟨hall, _⟩ := stays_all (I := I) (P := AllOrNothing I m len) (p := p) (e := e) (q := pos)
        (fun t x start w => Or.inl ⟨rfl, rfl⟩) h hroom hheads
      exact ⟨hkept, hown, hall⟩

/-- Where the field that is cut off is not begun, a pass stops when no field behind the end reads at the cursor. -/
theorem unbegun_stops (hlen : len < 4294967296) {P : (t : Ty) → t.Obj → Nat → t.Obj → Got t.Obj → Prop}
    (hP : ∀ t x start w g pos, pos ≤ len → len < start → P t x start w g → (pos, t.head) ∉ g.reads) {ts : List Ty}
    {p e : Packet ts} {ar : Archive} {pos : Nat} (h : ReadsAt ar m len pos) (hcut : CutOff m len pos (Packet.bytes ts p))
    (hend : pos + (Packet.bytes ts p).length < 4294967296) (he : Packet.Empty ts e)
    (heach : EachGet I P ts p pos ar e) (hbegun : ¬Begun (len - pos) ts p) : Stopped (len - pos) ts p := by
  induction ts generalizing ar pos with
  | nil => exact trivial
  | cons t ts ih =>
    unfold Begun at hbegun
    unfold Stopped
    by_cases hfit : (t.enc p.1).length ≤ len - pos
    · rw [if_pos hfit, Nat.sub_sub] at hbegun ⊢
      obtain ⟨_, hnext, hrest⟩ := reads_whole (I := I) hlen h hcut he.1 hfit
      have hbytes : Packet.bytes (t :: ts) p = t.enc p.1 ++ Packet.bytes ts p.2 := rfl
      rw [hbytes, List.length_append] at hend
      exact ih hnext hrest (by omega) he.2 heach.2 hbegun
    · rw [if_neg hfit] at hbegun ⊢
      have hstart := hcut.start
      have hheads := room_bytes p hend
      obtain ⟨hnext, _⟩ := h.stays (I := I) e.1 (by omega) (hheads t List.mem_cons_self)
      have hrest := stays_none hlen (fun t x start w g hs => hP t x start w g pos hstart hs) hnext
        (show len < pos + (t.enc p.1).length by omega) (fun u hu => hheads u (List.mem_cons_of_mem _ hu)) heach.2
      intro u hu
      rcases List.mem_cons.mp hu with rfl | hu
      · omega
      · have hroom := hrest u hu
        omega

/-- A pass that decodes each field in full or not at all does not begin the one that is cut off. -/
theorem all_unbegun (hlen : len < 4294967296) {ts : List Ty} {p e : Packet ts} {ar : Archive} {pos : Nat}
    (h : ReadsAt ar m len pos) (hcut : CutOff m len pos (Packet.bytes ts p))
    (hend : pos + (Packet.bytes ts p).length < 4294967296) (he : Packet.Empty ts e)
    (hall : EachGet I (AllOrNothing I m len) ts p pos ar e) : ¬Begun (len - pos) ts p := by
  induction ts generalizing ar pos with
  | nil => exact fun hbegun => hbegun
  | cons t ts ih =>
    unfold Begun
    have hbytes : Packet.bytes (t :: ts) p = t.enc p.1 ++ Packet.bytes ts p.2 := rfl
    by_cases hfit : (t.enc p.1).length ≤ len - pos
    · rw [if_pos hfit, Nat.sub_sub]
      obtain ⟨_, hnext, hrest⟩ := reads_whole (I := I) hlen h hcut he.1 hfit
      rw [hbytes, List.length_append] at hend
      exact ih hnext hrest (by omega) he.2 hall.2
    · rw [if_neg hfit]
      have hstart := hcut.start
      intro hhead
      have hread := head_read (m := m) hlen I e.1 (show pos + t.head ≤ len by omega)
      have hget := hall.1
      rw [h.get] at hget
      rcases hget with ⟨_, hnil⟩ | ⟨⟨y, hy⟩, _⟩
      · rw [hnil] at hread
        cases hread
      · rw [hbytes] at hcut hend
        rw [List.length_append] at hend
        rw [decode_cut I (hcut.part hfit) (by omega)] at hy
        cases hy

theorem own_behind (t : Ty) (x : t.Obj) (start : Nat) (w : t.Obj) (g : Got t.Obj) (pos : Nat) (hpos : pos ≤ len)
    (hs : len < start) (h : OwnBytes t x start w g) : (pos, t.head) ∉ g.reads := by
  intro hr
  have hle := (h _ hr).1
  dsimp only at hle
  omega

theorem all_behind (t : Ty) (x : t.Obj) (start : Nat) (w : t.Obj) (g : Got t.Obj) (pos : Nat) (_ : pos ≤ len)
    (hs : len < start) (h : AllOrNothing I m len t x start w g) : (pos, t.head) ∉ g.reads := by
  intro hr
  rcases h with ⟨_, hnil⟩ | ⟨⟨y, hy⟩, _⟩
  · rw [hnil] at hr
    cases hr
  · have hin := decode_within I t _ _ _ hy
    omega

end

/-- `make_from` leaves every field equal to the one of `p` or untouched, and decodes none from another's bytes. -/
structure Unshifted {σ : Type} (I : Impl) (P : IMemPool σ) (ts : List Ty) (r : Ram σ) (b : Buf) (p e : Packet ts) :
    Prop where
  kept : Packet.Kept ts p e (makeFrom I P ts r b e).2.2
  own : EachGet I OwnBytes ts p 0 (.new .read (view r b) b.len) e

section
variable {σ : Type} {P : IMemPool σ} (C : PoolContract P) (I : Impl)

/-- From the first bytes of an encoding every field is decoded in full or not at all exactly where none of the fields
that are not all there finds room for its head. Then none is shifted, and where the first of them finds no room this
is necessary for that. -/
theorem truncation_unshifted_iff {ts : List Ty} {p e : Packet ts} {b : Buf} {r : Ram σ} {H : Multiset Nat}
    (hinv : C.Inv r (b.held + H)) (hcut : b.len < (Packet.bytes ts p).length)
    (hlen : (Packet.bytes ts p).length < 4294967296)
    (hbytes : Bytes.readAt (view r b) 0 b.len = (Packet.bytes ts p).take b.len) (he : Packet.Empty ts e) :
    (EachGet I (AllOrNothing I (view r b) b.len) ts p 0 (.new .read (view r b) b.len) e ↔ Stopped b.len ts p) ∧
    (Stopped b.len ts p → Unshifted I P ts r b p e) ∧
    (¬Begun b.len ts p → (Unshifted I P ts r b p e ↔ Stopped b.len ts p)) := by
  have hreads : ReadsAt (.new .read (view r b) b.len) (view r b) b.len 0 := ⟨rfl, rfl, rfl, rfl⟩
  have hoff : CutOff (view r b) b.len 0 (Packet.bytes ts p) := ⟨Nat.zero_le _, by omega, hbytes⟩
  have hlt : b.len < 4294967296 := by omega
  have hend : 0 + (Packet.bytes ts p).length < 4294967296 := by omega
  have hstopped := fun h => stopped_reads (I := I) hlt hreads hoff hend he h
  have hkept : Stopped b.len ts p → Unshifted I P ts r b p e := by
    intro h
    obtain ⟨hkept, hown, _⟩ := hstopped h
    refine ⟨?_, hown⟩
    rw [(makeFrom_reads C I hinv ts e).1]
    exact hkept
  refine ⟨⟨fun h => ?_, fun h => (hstopped h).2.2⟩, hkept, fun hbegun => ⟨fun h => ?_, hkept⟩⟩
  · exact unbegun_stops hlt all_behind hreads hoff hend he h (all_unbegun hlt hreads hoff hend he h)
  · exact unbegun_stops hlt own_behind hreads hoff hend he h.own hbegun

end

/-- The first bytes of what `make_buf` gives. -/
def madePart (ts : List Ty) (p : Packet ts) (len : Nat) : Buf × Ram MemPool :=
  let made := makeBuf Impl.plain memPool ts (fun _ p => p) (MemPool.init ⟨[16], fun _ => ⟨1, 1⟩, by decide⟩) p
  ({ made.1 with len := len }, made.2.1)

/-- A `uint32_t` and a text that are all there, and a text of which not even the whole count is. -/
theorem truncation_unshifted_iff_sample :
    let p : Packet [.fixed .uint32, .string, .string] :=
      (⟨[1, 2, 3, 4], rfl⟩, ([104, 105] : List UInt8), ([33] : List UInt8), ())
    let e : Packet [.fixed .uint32, .string, .string] := (⟨[0, 0, 0, 0], rfl⟩, ([] : List UInt8), ([] : List UInt8), ())
    let b := (madePart [.fixed .uint32, .string, .string] p 12).1
    let r := (madePart [.fixed .uint32, .string, .string] p 12).2
    Unshifted Impl.plain memPool [.fixed .uint32, .string, .string] r b p e := by
  intro p e b r
  have hinit : (memPool_contract (MemPool.configured ⟨[16], fun _ => ⟨1, 1⟩, by decide⟩) fun _ => none).Inv
      (MemPool.init ⟨[16], fun _ => ⟨1, 1⟩, by decide⟩) (heldBy [] + (([] : List Nat) : Multiset Nat)) :=
    MemPool.inv_init (by decide)
  have hkeeps : KeepsLengths [.fixed .uint32, .string, .string] (fun _ p => p) p := fun _ => rfl
  have hmade := (makeBuf_spec _ Impl.plain hkeeps (by decide) hinit).2
  have hbytes := congrArg (List.take 12) hmade.bytes
  rw [Bytes.take_readAt _ _ (by rw [hmade.len]; decide)] at hbytes
  have hcut : b.len < (Packet.bytes [.fixed .uint32, .string, .string] p).length := by decide
  have hempty : Packet.Empty [.fixed .uint32, .string, .string] e := ⟨trivial, rfl, rfl, trivial⟩
  have hstopped : Stopped b.len [.fixed .uint32, .string, .string] p := by
    intro u hu
    cases List.mem_singleton.mp hu
    decide
  exact (truncation_unshifted_iff (memPool_contract (MemPool.configured ⟨[16], fun _ => ⟨1, 1⟩, by decide⟩)
    fun _ => none) Impl.plain (b := b) (r := r) hmade.inv hcut (by decide) hbytes hempty).2.1 hstopped

/-- Three bytes of a `uint32_t` and a `uint8_t`: the second field is decoded from the first byte of the first. -/
theorem truncation_shifted :
    let p : Packet [.fixed .uint32, .fixed (.prim 1)] := (⟨[1, 2, 3, 4], rfl⟩, ⟨[9], rfl⟩, ())
    let e : Packet [.fixed .uint32, .fixed (.prim 1)] := (⟨[0, 0, 0, 0], rfl⟩, ⟨[0], rfl⟩, ())
    let b := (madePart [.fixed .uint32, .fixed (.prim 1)] p 3).1
    let r := (madePart [.fixed .uint32, .fixed (.prim 1)] p 3).2
    Bytes.readAt (view r b) 0 b.len = (Packet.bytes _ p).take b.len ∧
      (makeFrom Impl.plain memPool [.fixed .uint32, .fixed (.prim 1)] r b e).2.2 =
        ((⟨[0, 0, 0, 0], rfl⟩, ⟨[1], rfl⟩, ()) : Packet [.fixed .uint32, .fixed (.prim 1)]) ∧
      ¬Unshifted Impl.plain memPool [.fixed .uint32, .fixed (.prim 1)] r b p e := by
  intro p e b r
  have hval : (makeFrom Impl.plain memPool [.fixed .uint32, .fixed (.prim 1)] r b e).2.2 =
      ((⟨[0, 0, 0, 0], rfl⟩, ⟨[1], rfl⟩, ()) : Packet [.fixed .uint32, .fixed (.prim 1)]) := rfl
  refine ⟨rfl, hval, fun h => ?_⟩
  have hkept := h.kept
  rw [hval] at hkept
  rcases hkept.2.1 with h | h
  · cases h
  · cases h

end Ven
