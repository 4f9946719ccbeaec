import Ven.Decoder
import Ven.BufGetSpec

namespace Ven

open ObjType Decoder

namespace Buf

/-- The turns of a decoding loop: where each one begins, and what it decodes. -/
def turns {α : Type} (get : Nat → Got α) : Nat → Nat → List (Nat × Got α)
  | 0, _ => []
  | cnt + 1, pos => (pos, get pos) :: turns get cnt (add32 pos (get pos).ret)

/-- Both reads in a turn of the loop of maps. -/
def getPair {α β : Type} (get₁ : Nat → Got α) (get₂ : Nat → Got β) (pos : Nat) : Got (α × β) :=
  let g₁ := get₁ pos
  let g₂ := get₂ (add32 pos g₁.ret)
  ⟨(g₁.val, g₂.val), add32 g₁.ret g₂.ret, g₁.reads ++ g₂.reads⟩

end Buf

/-- Every byte that is read lies in `[start, stop)`. -/
def Between (start stop : Nat) (reads : List (Nat × Nat)) : Prop :=
  ∀ r ∈ reads, start ≤ r.1 ∧ r.1 + r.2 ≤ stop

/-- `get` decodes whatever the step accepts, and from the same bytes. -/
def Exact {α : Type} (get : Nat → Got α) (step : Nat → Option (α × Nat)) : Prop :=
  ∀ pos x q, step pos = some (x, q) → (get pos).val = x ∧ pos + (get pos).ret = q ∧ Between pos q (get pos).reads

/-- The turn decodes a whole element from its own bytes. -/
def Decodes {α : Type} (step : Nat → Option (α × Nat)) (turn : Nat × Got α) : Prop :=
  step turn.1 = some (turn.2.val, turn.1 + turn.2.ret)

section
variable {α β γ : Type} {get : Nat → Got α} {step : Nat → Option (α × Nat)} {len : Nat}

theorem between_append {start mid stop : Nat} {xs ys : List (Nat × Nat)} (h₁ : start ≤ mid) (h₂ : mid ≤ stop)
    (hx : Between start mid xs) (hy : Between mid stop ys) : Between start stop (xs ++ ys) := by
  intro r hr
  rcases List.mem_append.mp hr with hr | hr
  · have h := hx r hr
    omega
  · have h := hy r hr
    omega

theorem between_read (pos size : Nat) : Between pos (pos + size) [(pos, size)] := by
  intro r hr
  cases List.mem_singleton.mp hr
  exact ⟨Nat.le_refl _, Nat.le_refl _⟩

theorem length_turns (get : Nat → Got α) (cnt pos : Nat) : (Buf.turns get cnt pos).length = cnt := by
  induction cnt generalizing pos with
  | zero => rfl
  | succ cnt ih => rw [Buf.turns, List.length_cons, ih]

/-- A loop adds to the container what its turns decode. -/
theorem iterate_turns {get : α → Nat → Got α} {t : α} {insert : γ → α → γ} (cnt : Nat) (s : GetLoop γ) :
    ((Buf.elemBody get t insert)^[cnt] s).v =
      (Buf.turns (get t) cnt s.pos).foldl (fun v a => insert v a.2.val) s.v := by
  induction cnt generalizing s with
  | zero => rfl
  | succ cnt ih =>
    rw [Function.iterate_succ_apply, ih]
    rfl

theorem iterate_reads {get : α → Nat → Got α} {t : α} {insert : γ → α → γ} (cnt : Nat) (s : GetLoop γ) :
    ((Buf.elemBody get t insert)^[cnt] s).reads =
      s.reads ++ (Buf.turns (get t) cnt s.pos).flatMap fun a => a.2.reads := by
  induction cnt generalizing s with
  | zero => exact (List.append_nil _).symm
  | succ cnt ih =>
    rw [Function.iterate_succ_apply, ih, Buf.turns, List.flatMap_cons, ← List.append_assoc]
    rfl

theorem pairBody_eq {get₁ : α → Nat → Got α} {get₂ : β → Nat → Got β} {t₁ : α} {t₂ : β} {insert : γ → α × β → γ} :
    Buf.pairBody get₁ get₂ t₁ t₂ insert =
      Buf.elemBody (fun _ => Buf.getPair (get₁ t₁) (get₂ t₂)) (t₁, t₂) insert := by
  funext s
  unfold Buf.pairBody Buf.elemBody Buf.getPair
  dsimp only
  rw [add32_add, add32_add_right, add32_add, add32_add_right, List.append_assoc]

variable (hlen : len < 4294967296) (hwithin : Within len step)
include hlen hwithin

/-- Where the elements are all there, every turn decodes one of them. -/
theorem turns_of_many (hexact : Exact get step) {cnt pos q : Nat} {xs : List α}
    (hmany : many step cnt pos = some (xs, q)) (hpos : pos ≤ len) :
    (Buf.turns get cnt pos).map (fun a => a.2.val) = xs ∧ (∀ a ∈ Buf.turns get cnt pos, Decodes step a) ∧
      Between pos q ((Buf.turns get cnt pos).flatMap fun a => a.2.reads) := by
  induction cnt generalizing pos xs with
  | zero =>
    cases hmany
    exact ⟨rfl, fun a ha => (by cases ha), fun r hr => (by cases hr)⟩
  | succ cnt ih =>
    obtain ⟨x, p, ys, hx, hys, rfl⟩ := many_succ hmany
    obtain ⟨hval, hret, hreads⟩ := hexact _ _ _ hx
    have hp := hwithin _ _ _ hx
    have hq := many_within hwithin hp.2 hys
    have hnext : add32 pos (get pos).ret = p := by
      rw [add32_of_lt (by omega), hret]
    obtain ⟨hvals, hall, hrest⟩ := ih hys hp.2
    unfold Buf.turns
    rw [hnext]
    refine ⟨?_, fun a ha => ?_, ?_⟩
    · rw [List.map_cons, hvals, hval]
    · rcases List.mem_cons.mp ha with rfl | ha
      · change step pos = some ((get pos).val, pos + (get pos).ret)
        rw [hx, hval, hret]
      · exact hall a ha
    · rw [List.flatMap_cons]
      exact between_append (by omega) (by omega) hreads hrest

/-- Where every turn decodes an element, the elements are all there. -/
theorem many_of_turns {cnt pos : Nat} (h : ∀ a ∈ Buf.turns get cnt pos, Decodes step a) :
    (many step cnt pos).isSome := by
  induction cnt generalizing pos with
  | zero => rfl
  | succ cnt ih =>
    have hx : step pos = some ((get pos).val, pos + (get pos).ret) := h _ List.mem_cons_self
    have hp := hwithin _ _ _ hx
    have hnext : add32 pos (get pos).ret = pos + (get pos).ret := add32_of_lt (by omega)
    have hrest : ∀ a ∈ Buf.turns get cnt (pos + (get pos).ret), Decodes step a := by
      intro a ha
      rw [← hnext] at ha
      exact h a (List.mem_cons_of_mem _ ha)
    obtain ⟨⟨ys, q⟩, hys⟩ := Option.isSome_iff_exists.mp (ih hrest)
    rw [many_cons hx hys]
    rfl

theorem iterate_size {get : α → Nat → Got α} {t : α} (hexact : Exact (get t) step) {insert : γ → α → γ} {cnt q : Nat} {xs : List α} {s : GetLoop γ}
    (hsize : s.size ≤ s.pos) (hmany : many step cnt s.pos = some (xs, q)) :
    ((Buf.elemBody get t insert)^[cnt] s).size + s.pos = s.size + q := by
  induction cnt generalizing s xs with
  | zero =>
    cases hmany
    rfl
  | succ cnt ih =>
    obtain ⟨x, p, ys, hx, hys, rfl⟩ := many_succ hmany
    obtain ⟨_, hret, _⟩ := hexact _ _ _ hx
    have hp := hwithin _ _ _ hx
    have hnext : (Buf.elemBody get t insert s).pos = p := by
      change add32 s.pos (get t s.pos).ret = p
      rw [add32_of_lt (by omega), hret]
    have hmore : (Buf.elemBody get t insert s).size = s.size + (get t s.pos).ret := by
      change add32 s.size (get t s.pos).ret = _
      rw [add32_of_lt (by omega)]
    rw [Function.iterate_succ_apply]
    have hsum := ih (s := Buf.elemBody get t insert s) (by omega) (by rw [hnext]; exact hys)
    omega

theorem pair_exact {get₁ : Nat → Got β} {step₁ : Nat → Option (β × Nat)} (hwithin₁ : Within len step₁)
    (h₁ : Exact get₁ step₁) (h : Exact get step) : Exact (Buf.getPair get₁ get) (pair step₁ step) := by
  intro pos x q hpair
  obtain ⟨p, hx, hy⟩ := pair_some hpair
  obtain ⟨hval₁, hret₁, hreads₁⟩ := h₁ _ _ _ hx
  obtain ⟨hval, hret, hreads⟩ := h _ _ _ hy
  have hp := hwithin₁ _ _ _ hx
  have hq := hwithin _ _ _ hy
  have hnext : add32 pos (get₁ pos).ret = p := by
    rw [add32_of_lt (by omega), hret₁]
  unfold Buf.getPair
  dsimp only
  rw [hnext, hval₁, hval]
  refine ⟨rfl, ?_, between_append (by omega) (by omega) hreads₁ hreads⟩
  rw [add32_of_lt (by omega)]
  omega

end

section
variable {m : Bytes.Memory} {len : Nat}

/-- The count that is read: 0 if there is no room for one. -/
def announcedCount (m : Bytes.Memory) (len pos : Nat) : Nat :=
  if len < add32 pos 4 then 0 else Bytes.leNat (Bytes.readAt m pos 4)

theorem getCnt_announced (pos : Nat) : (Buf.getCnt m len pos).1.val = announcedCount m len pos := by
  unfold Buf.getCnt Buf.getFixed announcedCount
  dsimp only
  have hsize : Sizer.sizeFixed .uint32 = 4 := rfl
  rw [hsize]
  split
  next => rfl
  next =>
    have hl := Bytes.length_readAt m pos 4
    simp only [FixedObj.memcpy]
    change Bytes.leNat (List.take 4 _) = _
    rw [List.take_append_of_le_length (by omega), List.take_of_length_le (by omega)]

theorem announced_fits (hlen : len < 4294967296) {pos : Nat} (h : pos + 4 ≤ len) :
    announcedCount m len pos = Bytes.leNat (Bytes.readAt m pos 4) ∧ (Buf.getCnt m len pos).1.ret = 4 ∧
      (Buf.getCnt m len pos).1.reads = [(pos, 4)] ∧ (Buf.getCnt m len pos).2 = pos + 4 := by
  have hadd : add32 pos 4 = pos + 4 := add32_of_lt (by omega)
  have hsize : Sizer.sizeFixed .uint32 = 4 := rfl
  have hret : (Buf.getCnt m len pos).1.ret = 4 := by
    unfold Buf.getCnt Buf.getFixed
    dsimp only
    rw [hsize, if_neg (by omega)]
  refine ⟨?_, hret, ?_, ?_⟩
  · unfold announcedCount
    rw [if_neg (by omega)]
  · unfold Buf.getCnt Buf.getFixed
    dsimp only
    rw [hsize, if_neg (by omega)]
  · change add32 pos (Buf.getCnt m len pos).1.ret = _
    rw [hret, hadd]

variable (hlen : len < 4294967296)
include hlen

/-- Every turn decodes an element, and the elements take a byte each. -/
theorem turns_iff {α β : Type} {get : Nat → Got α} {step : Nat → Option (α × Nat)} {make : List α → β} {pos : Nat}
    (hwithin : Within len step) (hexact : Exact get step) :
    ((∀ a ∈ Buf.turns get (Buf.getCnt m len pos).1.val (Buf.getCnt m len pos).2, Decodes step a) ∧
      (Buf.turns get (Buf.getCnt m len pos).1.val (Buf.getCnt m len pos).2).length ≤ len - (pos + 4)) ↔
    (announcedCount m len pos = 0 ∨ (items m len step make pos).isSome) := by
  rw [length_turns, getCnt_announced]
  constructor
  · rintro ⟨hall, hle⟩
    by_cases hz : announcedCount m len pos = 0
    · exact Or.inl hz
    · have hfit : pos + 4 ≤ len := by omega
      obtain ⟨hcnt, _, _, hnext⟩ := announced_fits (m := m) hlen hfit
      rw [hnext, hcnt] at hall
      have hmany := many_of_turns hlen hwithin hall
      unfold items
      rw [count_fits hfit, Option.bind_some, Option.isSome_map]
      exact Or.inr hmany
  · rintro (hz | hsome)
    · rw [hz]
      exact ⟨fun a ha => (by cases ha), Nat.zero_le _⟩
    · obtain ⟨⟨xs, q⟩, hitems⟩ := Option.isSome_iff_exists.mp hsome
      obtain ⟨cnt, ys, hc, hys, _⟩ := items_some hitems
      obtain ⟨hfit, hval, _⟩ := count_some hc
      obtain ⟨hcnt, _, _, hnext⟩ := announced_fits (m := m) hlen hfit
      rw [hnext, hcnt, ← hval]
      have hq := many_within hwithin hfit hys
      exact ⟨(turns_of_many hlen hwithin hexact hys hfit).2.1, by omega⟩

theorem getLoop_exact {α γ : Type} {get : α → Nat → Got α} {t : α} {step : Nat → Option (α × Nat)}
    (hwithin : Within len step) (hexact : Exact (get t) step) {insert : γ → α → γ} {v : γ} :
    Exact (Buf.getLoop m len (Buf.elemBody get t insert) v)
      (items m len step (List.foldl insert v)) := by
  intro pos w q hitems
  obtain ⟨cnt, xs, hc, hxs, rfl⟩ := items_some hitems
  obtain ⟨hfit, hval, _⟩ := count_some hc
  obtain ⟨hcnt, hret, hreads, hnext⟩ := announced_fits (m := m) hlen hfit
  obtain ⟨hvals, _, hrest⟩ := turns_of_many hlen hwithin hexact hxs hfit
  have hq := many_within hwithin hfit hxs
  unfold Buf.getLoop
  dsimp only
  rw [getCnt_announced, hcnt, ← hval, hret, hreads, hnext]
  refine ⟨?_, ?_, ?_⟩
  · rw [iterate_turns, ← hvals, List.foldl_map]
  · have hsize : ((Buf.elemBody get t insert)^[cnt] ⟨v, 4, pos + 4, [(pos, 4)]⟩).size + (pos + 4) = 4 + _ :=
      iterate_size hlen hwithin hexact (show 4 ≤ pos + 4 by omega) hxs
    omega
  · rw [iterate_reads]
    exact between_append (Nat.le_add_right pos 4) (by omega) (between_read pos 4) hrest

theorem getPairs_exact {α β γ : Type} {get₁ : α → Nat → Got α} {get₂ : β → Nat → Got β} {t₁ : α} {t₂ : β}
    {step₁ : Nat → Option (α × Nat)} {step₂ : Nat → Option (β × Nat)} (hwithin₁ : Within len step₁)
    (hwithin₂ : Within len step₂) (h₁ : Exact (get₁ t₁) step₁) (h₂ : Exact (get₂ t₂) step₂) {insert : γ → α × β → γ}
    {v : γ} : Exact (Buf.getLoop m len (Buf.pairBody get₁ get₂ t₁ t₂ insert) v)
      (items m len (pair step₁ step₂) (List.foldl insert v)) := by
  let get : α × β → Nat → Got (α × β) := fun _ => Buf.getPair (get₁ t₁) (get₂ t₂)
  have hexact : Exact (get (t₁, t₂)) (pair step₁ step₂) := pair_exact hlen hwithin₂ hwithin₁ h₁ h₂
  rw [pairBody_eq]
  exact getLoop_exact hlen (pair_within hwithin₁ hwithin₂) hexact

/-- The code decodes what the strict decoder accepts, with the same result. -/
theorem decode_get (I : Impl) (t : Ty) {w : t.Obj} (hw : t.Empty w) :
    Exact (Buf.get I m len t w) (decode I m len t) := by
  induction t with
  | fixed f =>
    intro pos x q h
    obtain ⟨hfit, hval, rfl⟩ := fixed_some h
    have hlength := x.2
    have hholds : Holds m len pos x.1 := ⟨by omega, by rw [hlength]; exact hval.symm⟩
    obtain ⟨hsame, hret⟩ := getFixed_gets hlen f x w pos hholds
    refine ⟨hsame.symm, by rw [← hlength]; exact congrArg (pos + ·) hret, ?_⟩
    have hsize := sizeFixed_eq f
    rw [Nat.mod_eq_of_lt (by omega)] at hsize
    change Between _ _ (Buf.getFixed m len f w pos).reads
    unfold Buf.getFixed
    dsimp only
    rw [hsize]
    split
    next => exact fun r hr => by cases hr
    next => exact between_read pos f.bytes
  | string =>
    intro pos s q h
    cases hw
    obtain ⟨cnt, hc, rfl, rfl, hle⟩ := string_some h
    obtain ⟨hfit, hval, _⟩ := count_some hc
    obtain ⟨hcnt, hret, hreads, hnext⟩ := announced_fits (m := m) hlen hfit
    change (Buf.getString m len [] pos).val = _ ∧ pos + (Buf.getString m len [] pos).ret = _ ∧
      Between _ _ (Buf.getString m len [] pos).reads
    unfold Buf.getString
    dsimp only
    rw [getCnt_announced, hcnt, ← hval, hret, hreads, hnext]
    split
    next hz =>
      rw [hz]
      exact ⟨rfl, rfl, between_read pos 4⟩
    next =>
      refine ⟨rfl, by rw [add32_of_lt (by omega), Nat.add_assoc], ?_⟩
      exact between_append (Nat.le_add_right pos 4) (Nat.le_add_right _ cnt) (between_read pos 4) (between_read _ cnt)
  | vector t ih =>
    cases hw
    exact getLoop_exact hlen (decode_within I t) (ih (t.empty_fresh I))
  | set t ih =>
    cases hw
    exact getLoop_exact hlen (decode_within I t) (ih (t.empty_fresh I))
  | unorderedSet t ih =>
    cases hw
    exact getLoop_exact hlen (decode_within I t) (ih (t.empty_fresh I))
  | map k v ihk ihv =>
    cases hw
    exact getPairs_exact hlen (decode_within I k) (decode_within I v) (ihk (k.empty_fresh I)) (ihv (v.empty_fresh I))
  | unorderedMap k v ihk ihv =>
    cases hw
    exact getPairs_exact hlen (decode_within I k) (decode_within I v) (ihk (k.empty_fresh I)) (ihv (v.empty_fresh I))

end

/-- What is added to an object of the type, one at a time. -/
def Ty.Elem : Ty → Type
  | .fixed _ => PEmpty
  | .string => PEmpty
  | .vector t => t.Obj
  | .set t => t.Obj
  | .unorderedSet t => t.Obj
  | .map k v => k.Obj × v.Obj
  | .unorderedMap k v => k.Obj × v.Obj

/-- `vector`, `set`, `unordered_set`, `map`, `unordered_map` -/
def Ty.IsContainer : Ty → Bool
  | .fixed _ => false
  | .string => false
  | _ => true

/-- `push_back` and `insert` -/
def Ty.add (I : Impl) : (t : Ty) → t.Obj → t.Elem → t.Obj
  | .fixed _, v, _ => v
  | .string, v, _ => v
  | .vector _, v, x => List.append v [x]
  | .set t, v, x => insertSet I (.set t) t.type v x
  | .unorderedSet t, v, x => insertSet I (.unorderedSet t) t.type v x
  | .map k u, v, x => insertMap I (.map k u) k.type u.type v x
  | .unorderedMap k u, v, x => insertMap I (.unorderedMap k u) k.type u.type v x

section
variable (I : Impl) (m : Bytes.Memory) (len : Nat)

/-- What `get` adds to a container: where each element is read, and what comes of it. -/
def Buf.added : (t : Ty) → Nat → List (Nat × Got t.Elem)
  | .fixed _, _ => []
  | .string, _ => []
  | .vector t, pos => let (c, pos) := getCnt m len pos; turns (get I m len t (t.fresh I)) c.val pos
  | .set t, pos => let (c, pos) := getCnt m len pos; turns (get I m len t (t.fresh I)) c.val pos
  | .unorderedSet t, pos => let (c, pos) := getCnt m len pos; turns (get I m len t (t.fresh I)) c.val pos
  | .map k v, pos =>
    let (c, pos) := getCnt m len pos
    turns (getPair (get I m len k (k.fresh I)) (get I m len v (v.fresh I))) c.val pos
  | .unorderedMap k v, pos =>
    let (c, pos) := getCnt m len pos
    turns (getPair (get I m len k (k.fresh I)) (get I m len v (v.fresh I))) c.val pos

/-- An element in full, all of its bytes inside the buffer. -/
def Decoder.elem : (t : Ty) → Nat → Option (t.Elem × Nat)
  | .fixed _, _ => none
  | .string, _ => none
  | .vector t, pos => decode I m len t pos
  | .set t, pos => decode I m len t pos
  | .unorderedSet t, pos => decode I m len t pos
  | .map k v, pos => pair (decode I m len k) (decode I m len v) pos
  | .unorderedMap k v, pos => pair (decode I m len k) (decode I m len v) pos

end

section
variable {m : Bytes.Memory} {len : Nat}

theorem getLoop_added {α γ : Type} {get : α → Nat → Got α} {t : α} {insert : γ → α → γ} {v : γ} {pos : Nat} :
    (Buf.getLoop m len (Buf.elemBody get t insert) v pos).val =
      (Buf.turns (get t) (Buf.getCnt m len pos).1.val (Buf.getCnt m len pos).2).foldl
        (fun v a => insert v a.2.val) v := iterate_turns _ _

theorem getPairs_added {α β γ : Type} {get₁ : α → Nat → Got α} {get₂ : β → Nat → Got β} {t₁ : α} {t₂ : β}
    {insert : γ → α × β → γ} {v : γ} {pos : Nat} :
    (Buf.getLoop m len (Buf.pairBody get₁ get₂ t₁ t₂ insert) v pos).val =
      (Buf.turns (Buf.getPair (get₁ t₁) (get₂ t₂)) (Buf.getCnt m len pos).1.val (Buf.getCnt m len pos).2).foldl
        (fun v a => insert v a.2.val) v := by
  rw [pairBody_eq]
  exact getLoop_added

theorem get_added (I : Impl) {t : Ty} (ht : t.IsContainer) (v : t.Obj) (pos : Nat) :
    (Buf.get I m len t v pos).val = (Buf.added I m len t pos).foldl (fun v a => t.add I v a.2.val) v := by
  cases t with
  | fixed f => cases ht
  | string => cases ht
  | vector t => exact getLoop_added
  | set t => exact getLoop_added
  | unorderedSet t => exact getLoop_added
  | map k u => exact getPairs_added
  | unorderedMap k u => exact getPairs_added

/-- Nothing is invented exactly where no element is announced, or all that is announced is there. -/
theorem added_iff (hlen : len < 4294967296) (I : Impl) {t : Ty} (ht : t.IsContainer) (pos : Nat) :
    ((∀ a ∈ Buf.added I m len t pos, Decodes (Decoder.elem I m len t) a) ∧
      (Buf.added I m len t pos).length ≤ len - (pos + 4)) ↔
    (announcedCount m len pos = 0 ∨ (decode I m len t pos).isSome) := by
  have elem : ∀ t, Within len (decode I m len t) := fun t => decode_within I t
  have exact : ∀ t, Exact (Buf.get I m len t (t.fresh I)) (decode I m len t) := fun t => decode_get hlen I t (t.empty_fresh I)
  cases t with
  | fixed f => cases ht
  | string => cases ht
  | vector t => exact turns_iff hlen (elem t) (exact t)
  | set t => exact turns_iff hlen (elem t) (exact t)
  | unorderedSet t => exact turns_iff hlen (elem t) (exact t)
  | map k v =>
    exact turns_iff hlen (pair_within (elem k) (elem v)) (pair_exact hlen (elem v) (elem k) (exact k) (exact v))
  | unorderedMap k v =>
    exact turns_iff hlen (pair_within (elem k) (elem v)) (pair_exact hlen (elem v) (elem k) (exact k) (exact v))

/-- A container gets the elements that its turns decode; each of them is decoded in full from its own bytes, and they
are no more than the bytes behind the count, exactly where none is announced or all of them are there. -/
theorem elements_decoded_iff (hlen : len < 4294967296) (I : Impl) {t : Ty} (ht : t.IsContainer) (v : t.Obj) (pos : Nat) :
    (Buf.get I m len t v pos).val = (Buf.added I m len t pos).foldl (fun v a => t.add I v a.2.val) v ∧
    (((∀ a ∈ Buf.added I m len t pos, Decodes (Decoder.elem I m len t) a) ∧
      (Buf.added I m len t pos).length ≤ len - (pos + 4)) ↔
    (announcedCount m len pos = 0 ∨ (decode I m len t pos).isSome)) := ⟨get_added I ht v pos, added_iff hlen I ht pos⟩

end

/-- `std::vector<uint8_t>` -/
abbrev Ty.byteVector : Ty := .vector (.fixed (.prim 1))

/-- Two bytes announced and there. -/
theorem elements_decoded_iff_sample :
    (Buf.added Impl.plain (Bytes.writeAt (fun _ => 0) 0 [2, 0, 0, 0, 7, 9]) 6 .byteVector 0).length ≤ 2 := by
  have h := @elements_decoded_iff (Bytes.writeAt (fun _ => 0) 0 [2, 0, 0, 0, 7, 9]) 6 (by decide) Impl.plain
    .byteVector rfl ([] : List (FixedObj 1)) 0
  exact (h.2.mpr (Or.inr rfl)).2

/-- Four bytes that announce as many elements as a count can: they are all added, and none of them is there. -/
theorem elements_invented :
    (Buf.added Impl.plain (fun _ => 255) 4 .byteVector 0).length = 4294967295 ∧
    ¬((∀ a ∈ Buf.added Impl.plain (fun _ => 255) 4 .byteVector 0,
        Decodes (Decoder.elem Impl.plain (fun _ => 255) 4 .byteVector) a) ∧
      (Buf.added Impl.plain (fun _ => 255) 4 .byteVector 0).length ≤ 4 - (0 + 4)) := by
  have hcount : (Buf.getCnt (fun _ => 255) 4 0).1.val = 4294967295 := by decide
  have hlength : (Buf.added Impl.plain (fun _ => 255) 4 .byteVector 0).length = 4294967295 :=
    (length_turns _ _ _).trans hcount
  refine ⟨hlength, ?_⟩
  rintro ⟨_, h⟩
  rw [hlength] at h
  omega

end Ven
