import Ven.Encoding
import Ven.BufGet

namespace Ven

open ObjType

/-- The bytes `data` lie at `pos`, inside the buffer. -/
def Holds (m : Bytes.Memory) (len pos : Nat) (data : List UInt8) : Prop :=
  pos + data.length ≤ len ∧ Bytes.readAt m pos data.length = data

theorem holds_append {m : Bytes.Memory} {len pos : Nat} {xs ys : List UInt8} :
    Holds m len pos (xs ++ ys) ↔ Holds m len pos xs ∧ Holds m len (pos + xs.length) ys := by
  unfold Holds
  rw [List.length_append, Bytes.readAt_add]
  constructor
  · rintro ⟨hfit, hread⟩
    obtain ⟨hx, hy⟩ := List.append_inj hread (Bytes.length_readAt _ _ _)
    exact ⟨⟨by omega, hx⟩, by omega, hy⟩
  · rintro ⟨⟨_, hx⟩, hfit, hy⟩
    exact ⟨by omega, by rw [hx, hy]⟩

/-- Where the encoding of `x` lies, `get` onto `t` gives an equal object and returns its length. -/
def Gets {α : Type} (m : Bytes.Memory) (len : Nat) (get : α → Nat → Got α) (same : α → α → Prop)
    (enc : α → List UInt8) (x t : α) : Prop :=
  ∀ pos, Holds m len pos (enc x) → same x (get t pos).val ∧ (get t pos).ret = (enc x).length

/-- A container holds the elements decoded so far. -/
def Holding {α : Type} {same : α → α → Prop} (same' : α → α → Prop) (s : Distinct same) (xs : List α) : Prop :=
  ∃ ys, s.items.Perm ys ∧ List.Forall₂ same' xs ys

theorem Holding.sameMembers {α : Type} {same same' : α → α → Prop} (symm : ∀ {a b}, same' a b → same' b a)
    {s : Distinct same} {xs : List α} (h : Holding same' s xs) : SameMembers same' xs s.items := by
  obtain ⟨ys, hperm, hall⟩ := h
  have both : SameMembers same' xs ys := by
    clear hperm
    induction hall with
    | nil => exact ⟨fun x hx => (by cases hx), fun x hx => (by cases hx)⟩
    | @cons x y xs ys hxy _ ih =>
      constructor
      · intro a ha
        rcases List.mem_cons.mp ha with rfl | ha
        · exact ⟨y, List.mem_cons_self, hxy⟩
        · obtain ⟨b, hb, hab⟩ := ih.1 a ha
          exact ⟨b, List.mem_cons_of_mem _ hb, hab⟩
      · intro b hb
        rcases List.mem_cons.mp hb with rfl | hb
        · exact ⟨x, List.mem_cons_self, symm hxy⟩
        · obtain ⟨a, ha, hab⟩ := ih.2 b hb
          exact ⟨a, List.mem_cons_of_mem _ ha, hab⟩
  exact ⟨fun x hx => (both.1 x hx).imp fun y h => ⟨hperm.mem_iff.mpr h.1, h.2⟩,
    fun y hy => both.2 y (hperm.mem_iff.mp hy)⟩

/-- An element that differs from all decoded before is not there yet. -/
theorem Holding.insert {α : Type} {same same' : α → α → Prop} [DecidableRel same]
    (symm : ∀ {a b}, same a b → same b a) (trans : ∀ {a b c}, same a b → same b c → same a c)
    (weak : ∀ {a b}, same' a b → same a b) {I : Impl} {c : Ty} {s : Distinct same} {xs : List α} {x y : α}
    (h : Holding same' s xs) (hnew : ∀ d ∈ xs, ¬same d x) (hxy : same' x y) :
    Holding same' (Distinct.insert symm I c s y) (xs ++ [x]) := by
  obtain ⟨ys, hperm, hall⟩ := h
  have hno : ¬∃ z ∈ s.items, same y z := by
    rintro ⟨z, hz, hyz⟩
    have hweak : Holding same s xs := ⟨ys, hperm, hall.imp fun _ _ => weak⟩
    obtain ⟨d, hd, hdz⟩ := (hweak.sameMembers symm).2 z hz
    exact hnew d hd (symm (trans (weak hxy) (trans hyz hdz)))
  refine ⟨ys ++ [y], ?_, List.rel_append hall (.cons hxy .nil)⟩
  unfold Distinct.insert
  rw [dif_neg hno]
  exact (I.perm c s.items y).trans ((hperm.cons y).trans (List.perm_append_singleton y ys).symm)

section
variable {m : Bytes.Memory} {len : Nat} (hlen : len < 4294967296)
include hlen

theorem getFixed_gets (f : Fixed) (v w : FixedObj f.bytes) :
    Gets m len (Buf.getFixed m len f) Eq (fun v => v.1) v w := by
  intro pos h
  have hfit : pos + v.1.length ≤ len := h.1
  have hread : Bytes.readAt m pos v.1.length = v.1 := h.2
  have hl := v.2
  have hsize := sizeFixed_eq f
  have hs : Sizer.sizeFixed f = v.1.length := by omega
  have hadd : add32 pos (Sizer.sizeFixed f) = pos + Sizer.sizeFixed f := add32_of_lt (by omega)
  unfold Buf.getFixed
  dsimp only
  rw [if_neg (by omega)]
  refine ⟨Subtype.ext ?_, hs⟩
  change v.1 = (Bytes.readAt m pos _ ++ _).take f.bytes
  rw [hs, hread, List.take_append_of_le_length (by omega), List.take_of_length_le (by omega)]

theorem getCnt_gets {n pos : Nat} (hn : n < 4294967296) (h : Holds m len pos (Bytes.leBytes 4 n)) :
    (Buf.getCnt m len pos).1.val = n ∧ (Buf.getCnt m len pos).1.ret = 4 ∧
      (Buf.getCnt m len pos).2 = pos + 4 := by
  obtain ⟨hval, hret⟩ := getFixed_gets hlen .uint32 ⟨Bytes.leBytes 4 n, Bytes.length_leBytes 4 n⟩
    ⟨Bytes.leBytes 4 0, rfl⟩ pos h
  have hret' : (Buf.getCnt m len pos).1.ret = 4 := hret.trans (Bytes.length_leBytes 4 n)
  have hfit := h.1
  rw [Bytes.length_leBytes] at hfit
  refine ⟨?_, hret', ?_⟩
  · change Bytes.leNat (Buf.getFixed m len .uint32 _ pos).val.1 = n
    rw [← hval]
    exact Bytes.leNat_leBytes hn
  · change add32 pos (Buf.getCnt m len pos).1.ret = _
    rw [hret', add32_of_lt (by omega)]

theorem getString_gets (v : List UInt8) :
    Gets m len (Buf.getString m len) Eq (encItems fun b => [b]) v [] := by
  intro pos h
  rw [encItems_bytes] at h ⊢
  have hfit := h.1
  obtain ⟨hc, hs⟩ := holds_append.mp h
  rw [List.length_append, Bytes.length_leBytes] at hfit
  rw [Bytes.length_leBytes] at hs
  obtain ⟨hcnt, hret, hpos⟩ := getCnt_gets hlen (by omega) hc
  rw [List.length_append, Bytes.length_leBytes]
  unfold Buf.getString
  dsimp only
  rw [hcnt, hret, hpos]
  split
  next hz =>
    have hnil := List.eq_nil_of_length_eq_zero hz
    exact ⟨hnil, by rw [hz]⟩
  next => exact ⟨hs.2.symm, add32_of_lt (by omega)⟩

/-- One turn of a decoding loop consumes the encoding of the next element. -/
def Turns {γ ι : Type} (m : Bytes.Memory) (len : Nat) (body : GetLoop γ → GetLoop γ)
    (rel : γ → List ι → Prop) (enc : ι → List UInt8) (xs : List ι) : Prop :=
  ∀ s done x rest, xs = done ++ x :: rest → rel s.v done → s.size ≤ s.pos → Holds m len s.pos (enc x) →
    rel (body s).v (done ++ [x]) ∧ (body s).size = s.size + (enc x).length ∧
      (body s).pos = s.pos + (enc x).length

omit hlen in
theorem iterate_gets {γ ι : Type} {body : GetLoop γ → GetLoop γ} {rel : γ → List ι → Prop}
    {enc : ι → List UInt8} {xs : List ι} (hturn : Turns m len body rel enc xs) (rest : List ι)
    {done : List ι} (hxs : xs = done ++ rest) {s : GetLoop γ} (hrel : rel s.v done)
    (hsize : s.size ≤ s.pos) (h : Holds m len s.pos (rest.flatMap enc)) :
    rel (body^[rest.length] s).v xs ∧ (body^[rest.length] s).size = s.size + (rest.flatMap enc).length := by
  induction rest generalizing done s with
  | nil =>
    rw [List.append_nil] at hxs
    rw [hxs]
    exact ⟨hrel, rfl⟩
  | cons x rest ih =>
    rw [List.flatMap_cons] at h
    obtain ⟨hx, hrest⟩ := holds_append.mp h
    obtain ⟨hrel', hs, hp⟩ := hturn s done x rest hxs hrel hsize hx
    rw [← hp] at hrest
    have hxs' : xs = (done ++ [x]) ++ rest := by
      rw [hxs, List.append_assoc]
      rfl
    obtain ⟨hfinal, hsum⟩ := ih hxs' hrel' (by omega) hrest
    rw [List.length_cons, Function.iterate_succ_apply]
    refine ⟨hfinal, ?_⟩
    rw [hsum, hs, List.flatMap_cons, List.length_append, Nat.add_assoc]

theorem getLoop_gets {γ ι : Type} {body : GetLoop γ → GetLoop γ} {rel : γ → List ι → Prop}
    {enc : ι → List UInt8} {xs : List ι} (hturn : Turns m len body rel enc xs)
    (hpos : ∀ x ∈ xs, 0 < (enc x).length) {v : γ} (hrel : rel v []) {pos : Nat}
    (h : Holds m len pos (encItems enc xs)) :
    rel (Buf.getLoop m len body v pos).val xs ∧
      (Buf.getLoop m len body v pos).ret = (encItems enc xs).length := by
  have hcount := length_le_flatMap hpos
  have hfit := h.1
  rw [length_encItems] at hfit ⊢
  obtain ⟨hc, hitems⟩ := holds_append.mp h
  rw [Bytes.length_leBytes] at hitems
  obtain ⟨hcnt, hret, hnext⟩ := getCnt_gets hlen (by omega) hc
  unfold Buf.getLoop
  dsimp only
  rw [hcnt, hret, hnext]
  exact iterate_gets hturn xs rfl hrel (show 4 ≤ pos + 4 by omega) hitems

/-- A turn of the loop of vectors and sets. -/
theorem elemBody_turns {α β : Type} {get : α → Nat → Got α} {t : α} {insert : β → α → β}
    {same : α → α → Prop} {enc : α → List UInt8} {rel : β → List α → Prop} {xs : List α}
    (hget : ∀ x, Gets m len get same enc x t)
    (hins : ∀ v done x rest y, xs = done ++ x :: rest → rel v done → same x y → rel (insert v y) (done ++ [x])) :
    Turns m len (Buf.elemBody get t insert) rel enc xs := by
  intro s done x rest hxs hrel hsize h
  obtain ⟨hsame, hret⟩ := hget x s.pos h
  have hfit := h.1
  refine ⟨hins _ _ _ _ _ hxs hrel hsame, ?_, ?_⟩
  · change add32 s.size (get t s.pos).ret = _
    rw [hret, add32_of_lt (by omega)]
  · change add32 s.pos (get t s.pos).ret = _
    rw [hret, add32_of_lt (by omega)]

theorem pairBody_turns {α β γ : Type} {get₁ : α → Nat → Got α} {get₂ : β → Nat → Got β} {t₁ : α} {t₂ : β}
    {insert : γ → α × β → γ} {same₁ : α → α → Prop} {same₂ : β → β → Prop} {enc₁ : α → List UInt8}
    {enc₂ : β → List UInt8} {rel : γ → List (α × β) → Prop} {xs : List (α × β)}
    (hget₁ : ∀ x, Gets m len get₁ same₁ enc₁ x t₁) (hget₂ : ∀ x, Gets m len get₂ same₂ enc₂ x t₂)
    (hins : ∀ v done x rest y, xs = done ++ x :: rest → rel v done → same₁ x.1 y.1 ∧ same₂ x.2 y.2 →
      rel (insert v y) (done ++ [x])) :
    Turns m len (Buf.pairBody get₁ get₂ t₁ t₂ insert) rel (fun kv => enc₁ kv.1 ++ enc₂ kv.2) xs := by
  intro s done x rest hxs hrel hsize h
  have hfit := h.1
  obtain ⟨hk, hv⟩ := holds_append.mp h
  rw [List.length_append] at hfit ⊢
  obtain ⟨hsame₁, hret₁⟩ := hget₁ x.1 s.pos hk
  have hnext : add32 s.pos (get₁ t₁ s.pos).ret = s.pos + (enc₁ x.1).length := by
    rw [hret₁, add32_of_lt (by omega)]
  obtain ⟨hsame₂, hret₂⟩ := hget₂ x.2 (s.pos + (enc₁ x.1).length) hv
  unfold Buf.pairBody
  dsimp only
  rw [hnext, hret₁, hret₂]
  refine ⟨hins _ _ _ _ _ hxs hrel ⟨hsame₁, hsame₂⟩, ?_, ?_⟩
  · rw [add32_add, add32_of_lt (by omega)]
  · rw [add32_of_lt (by omega), Nat.add_assoc]

end

theorem pairwise_before {α : Type} {same : α → α → Prop} {xs done rest : List α} {x : α}
    (h : xs.Pairwise fun a b => ¬same a b) (hxs : xs = done ++ x :: rest) : ∀ d ∈ done, ¬same d x := by
  intro d hd
  rw [hxs] at h
  exact (List.pairwise_append.mp h).2.2 d hd x List.mem_cons_self

section
variable {m : Bytes.Memory} {len : Nat} (hlen : len < 4294967296)
include hlen

theorem getVector_gets {t : Ty} {get : t.Obj → Nat → Got t.Obj} {fresh : t.Obj}
    (hget : ∀ x, Gets m len get t.Same t.enc x fresh) (v : List t.Obj) :
    Gets m len (Buf.getVector m len get fresh) (List.Forall₂ t.Same) (encItems t.enc) v [] := by
  intro pos h
  let rel : List t.Obj → List t.Obj → Prop := fun v xs => List.Forall₂ t.Same xs v
  have hturn : Turns m len (Buf.elemBody get fresh fun v t => v ++ [t]) rel t.enc v :=
    elemBody_turns hlen hget fun _ _ _ _ _ _ hrel hxy => List.rel_append hrel (.cons hxy .nil)
  exact getLoop_gets hlen hturn (fun x _ => enc_pos t x) .nil h

theorem getSet_gets (I : Impl) (c : Ty) {t : Ty} {get : t.Obj → Nat → Got t.Obj} {fresh : t.Obj}
    (hget : ∀ x, Gets m len get t.Same t.enc x fresh) (v : Distinct t.type.Same) :
    Gets m len (Buf.getSet I m len c get fresh) (ObjType.set t.type).Same (fun v => encItems t.enc v.items) v
      Distinct.empty := by
  intro pos h
  have hturn : Turns m len (Buf.elemBody get fresh (insertSet I c t.type)) (Holding t.Same) t.enc v.items := by
    apply elemBody_turns hlen hget
    intro s done x rest y hxs hrel hxy
    exact @Holding.insert _ t.type.Same t.type.Same _ t.type.symm t.type.trans id I c s done x y hrel
      (pairwise_before v.distinct hxs) hxy
  have hrel : Holding t.Same (Distinct.empty : Distinct t.type.Same) [] := ⟨[], .nil, .nil⟩
  obtain ⟨hrel, hret⟩ := getLoop_gets hlen hturn (fun x _ => enc_pos t x) hrel h
  exact ⟨hrel.sameMembers t.type.symm, hret⟩

theorem getMap_gets (I : Impl) (c : Ty) {k w : Ty} {get₁ : k.Obj → Nat → Got k.Obj}
    {get₂ : w.Obj → Nat → Got w.Obj} {fresh₁ : k.Obj} {fresh₂ : w.Obj}
    (hget₁ : ∀ x, Gets m len get₁ k.Same k.enc x fresh₁) (hget₂ : ∀ x, Gets m len get₂ w.Same w.enc x fresh₂)
    (v : Distinct (SameKey k.type w.type)) :
    Gets m len (Buf.getMap I m len c get₁ get₂ fresh₁ fresh₂) (ObjType.map k.type w.type).Same
      (fun v => encItems (fun kv => k.enc kv.1 ++ w.enc kv.2) v.items) v Distinct.empty := by
  intro pos h
  have hturn : Turns m len (Buf.pairBody get₁ get₂ fresh₁ fresh₂ (insertMap I c k.type w.type))
      (Holding (SamePair k.type w.type)) (fun kv => k.enc kv.1 ++ w.enc kv.2) v.items := by
    apply pairBody_turns hlen hget₁ hget₂
    intro s done x rest y hxs hrel hxy
    exact @Holding.insert _ (SameKey k.type w.type) (SamePair k.type w.type) _ k.type.symm k.type.trans
      And.left I c s done x y hrel (pairwise_before v.distinct hxs) hxy
  have hrel : Holding (SamePair k.type w.type) (Distinct.empty : Distinct (SameKey k.type w.type)) [] :=
    ⟨[], .nil, .nil⟩
  obtain ⟨hrel, hret⟩ := getLoop_gets hlen hturn (fun x _ => encPair_pos x) hrel h
  exact ⟨hrel.sameMembers fun h => ⟨k.type.symm h.1, w.type.symm h.2⟩, hret⟩

end

/-- Decoding an encoding onto an object without elements gives an equal object. -/
theorem get_spec (I : Impl) {m : Bytes.Memory} {len : Nat} (hlen : len < 4294967296) (t : Ty) (v w : t.Obj)
    (hw : t.Empty w) : Gets m len (Buf.get I m len t) t.Same t.enc v w := by
  induction t with
  | fixed f => exact getFixed_gets hlen f v w
  | string =>
    cases hw
    exact getString_gets hlen v
  | vector t ih =>
    cases hw
    exact getVector_gets hlen (fun x => ih x _ (t.empty_fresh I)) v
  | set t ih =>
    cases hw
    exact getSet_gets hlen I _ (fun x => ih x _ (t.empty_fresh I)) v
  | unorderedSet t ih =>
    cases hw
    exact getSet_gets hlen I _ (fun x => ih x _ (t.empty_fresh I)) v
  | map k w ihk ihw =>
    cases hw
    exact getMap_gets hlen I _ (fun x => ihk x _ (k.empty_fresh I)) (fun x => ihw x _ (w.empty_fresh I)) v
  | unorderedMap k w ihk ihw =>
    cases hw
    exact getMap_gets hlen I _ (fun x => ihk x _ (k.empty_fresh I)) (fun x => ihw x _ (w.empty_fresh I)) v

end Ven
