import Ven.RoundTrip

namespace Ven

open ObjType Archive BufConv

/-- Decoding `v` onto `w` leaves nothing of `w` that is not in `v`. -/
def Ty.Replaces : (t : Ty) → t.Obj → t.Obj → Prop
  | .fixed _, _, _ => True
  | .string, w, v => v = ([] : List UInt8) → w = ([] : List UInt8)
  | .vector t, w, _ => w = ([] : List t.Obj)
  | .set t, w, v => ∀ x ∈ Distinct.items w, ∃ y ∈ Distinct.items v, t.Same x y
  | .unorderedSet t, w, v => ∀ x ∈ Distinct.items w, ∃ y ∈ Distinct.items v, t.Same x y
  | .map k v, w, u => ∀ x ∈ Distinct.items w, ∃ y ∈ Distinct.items u, SamePair k.type v.type x y
  | .unorderedMap k v, w, u => ∀ x ∈ Distinct.items w, ∃ y ∈ Distinct.items u, SamePair k.type v.type x y

def Packet.Replaces : (ts : List Ty) → Packet ts → Packet ts → Prop
  | [], _, _ => True
  | t :: ts, w, v => t.Replaces w.1 v.1 ∧ Replaces ts w.2 v.2

/-- `s` is `w` with elements equal to those of `xs` inserted; `same'` is finer than what `insert` compares. -/
structure Merged {α : Type} {same : α → α → Prop} (same' : α → α → Prop) (w s : Distinct same) (xs : List α) :
    Prop where
  old : ∀ z ∈ w.items, z ∈ s.items
  source : ∀ z ∈ s.items, z ∈ w.items ∨ ∃ x ∈ xs, same' x z
  new : ∀ x ∈ xs, ∃ z ∈ s.items, same x z

section
variable {α : Type} {same same' : α → α → Prop}

theorem Merged.refl (w : Distinct same) : Merged same' w w [] :=
  ⟨fun _ h => h, fun _ h => Or.inl h, fun x hx => by cases hx⟩

theorem Merged.insert [DecidableRel same] (symm : ∀ {a b}, same a b → same b a)
    (trans : ∀ {a b c}, same a b → same b c → same a c) (weak : ∀ {a b}, same' a b → same a b) {I : Impl} {c : Ty}
    {w s : Distinct same} {xs : List α} {x y : α} (h : Merged same' w s xs) (hxy : same' x y) :
    Merged same' w (Distinct.insert symm I c s y) (xs ++ [x]) := by
  unfold Distinct.insert
  split
  next hin =>
    obtain ⟨z, hz, hyz⟩ := hin
    refine ⟨h.old, fun z hz => (h.source z hz).imp_right ?_, fun a ha => ?_⟩
    · rintro ⟨a, ha, haz⟩
      exact ⟨a, List.mem_append_left _ ha, haz⟩
    · rcases List.mem_append.mp ha with ha | ha
      · exact h.new a ha
      · cases List.mem_singleton.mp ha
        exact ⟨z, hz, trans (weak hxy) hyz⟩
  next =>
    have hmem : ∀ z, z ∈ I.place c s.items y ↔ z = y ∨ z ∈ s.items := by
      intro z
      rw [(I.perm c s.items y).mem_iff, List.mem_cons]
    refine ⟨fun z hz => (hmem z).mpr (Or.inr (h.old z hz)), fun z hz => ?_, fun a ha => ?_⟩
    · rcases (hmem z).mp hz with rfl | hz
      · exact Or.inr ⟨x, List.mem_append_right _ List.mem_cons_self, hxy⟩
      · refine (h.source z hz).imp_right ?_
        rintro ⟨a, ha, haz⟩
        exact ⟨a, List.mem_append_left _ ha, haz⟩
    · rcases List.mem_append.mp ha with ha | ha
      · obtain ⟨z, hz, haz⟩ := h.new a ha
        exact ⟨z, (hmem z).mpr (Or.inr hz), haz⟩
      · cases List.mem_singleton.mp ha
        exact ⟨y, (hmem y).mpr (Or.inl rfl), weak hxy⟩

theorem distinct_unique (symm : ∀ {a b}, same a b → same b a) {v : Distinct same} {x y : α}
    (hx : x ∈ v.items) (hy : y ∈ v.items) (h : same x y) : x = y := by
  by_contra hne
  have hall := List.pairwise_iff_getElem.mp v.distinct
  obtain ⟨i, hi, rfl⟩ := List.mem_iff_getElem.mp hx
  obtain ⟨j, hj, rfl⟩ := List.mem_iff_getElem.mp hy
  rcases Nat.lt_trichotomy i j with hlt | heq | hgt
  · exact hall i j hi hj hlt h
  · subst heq
    exact hne rfl
  · exact hall j i hj hi hgt (symm h)

/-- What was there before may only be what is decoded. -/
theorem Merged.same_iff {w s v : Distinct same} (h : Merged same' w s v.items)
    (symm : ∀ {a b}, same a b → same b a) (trans : ∀ {a b c}, same a b → same b c → same a c)
    (symm' : ∀ {a b}, same' a b → same' b a) (weak : ∀ {a b}, same' a b → same a b) :
    SameMembers same' v.items s.items ↔ ∀ x ∈ w.items, ∃ y ∈ v.items, same' x y := by
  constructor
  · intro hs x hx
    exact hs.2 x (h.old x hx)
  · intro hw
    have back : ∀ z ∈ s.items, ∃ y ∈ v.items, same' z y := by
      intro z hz
      rcases h.source z hz with hz | ⟨y, hy, hyz⟩
      · exact hw z hz
      · exact ⟨y, hy, symm' hyz⟩
    refine ⟨fun x hx => ?_, back⟩
    obtain ⟨z, hz, hxz⟩ := h.new x hx
    obtain ⟨y, hy, hzy⟩ := back z hz
    have he : x = y := distinct_unique symm hx hy (trans hxz (weak hzy))
    exact ⟨z, hz, he ▸ symm' hzy⟩

end

section
variable {m : Bytes.Memory} {len : Nat} (hlen : len < 4294967296)
include hlen

theorem getString_over (v w : List UInt8) {pos : Nat} (h : Holds m len pos (encItems (fun b => [b]) v)) :
    (v = (Buf.getString m len w pos).val ↔ (v = [] → w = [])) ∧
      (Buf.getString m len w pos).ret = (encItems (fun b => [b]) v).length := by
  obtain ⟨hval, hret⟩ := getString_gets hlen v pos h
  have hcount : (Buf.getCnt m len pos).1.val = v.length := by
    have hfit := h.1
    rw [length_encItems, List.flatMap_singleton'] at hfit
    rw [encItems_bytes] at h
    exact (getCnt_gets hlen (by omega) (holds_append.mp h).1).1
  unfold Buf.getString at hval hret ⊢
  dsimp only at hval hret ⊢
  rw [hcount] at hval hret ⊢
  by_cases hz : v.length = 0
  · rw [if_pos hz] at hret ⊢
    have hnil := List.eq_nil_of_length_eq_zero hz
    exact ⟨⟨fun h _ => h.symm.trans hnil, fun h => hnil.trans (h hnil).symm⟩, hret⟩
  · rw [if_neg hz] at hval hret ⊢
    refine ⟨⟨fun _ hnil => ?_, fun _ => hval⟩, hret⟩
    rw [hnil] at hz
    exact absurd rfl hz

theorem getVector_over {t : Ty} {get : t.Obj → Nat → Got t.Obj} {fresh : t.Obj}
    (hget : ∀ x, Gets m len get t.Same t.enc x fresh) (v w : List t.Obj) {pos : Nat}
    (h : Holds m len pos (encItems t.enc v)) :
    (List.Forall₂ t.Same v (Buf.getVector m len get fresh w pos).val ↔ w = []) ∧
      (Buf.getVector m len get fresh w pos).ret = (encItems t.enc v).length := by
  let rel : List t.Obj → List t.Obj → Prop := fun s xs => ∃ ys, s = w ++ ys ∧ List.Forall₂ t.Same xs ys
  have hturn : Turns m len (Buf.elemBody get fresh fun v t => v ++ [t]) rel t.enc v := by
    apply elemBody_turns hlen hget
    rintro s done x rest y _ ⟨ys, rfl, hall⟩ hxy
    exact ⟨ys ++ [y], List.append_assoc _ _ _, List.rel_append hall (.cons hxy .nil)⟩
  have hrel : rel w [] := ⟨[], (List.append_nil w).symm, .nil⟩
  obtain ⟨⟨ys, hval, hall⟩, hret⟩ := getLoop_gets hlen hturn (fun x _ => enc_pos t x) hrel h
  replace hval : (Buf.getVector m len get fresh w pos).val = w ++ ys := hval
  refine ⟨⟨fun hsame => ?_, fun hnil => ?_⟩, hret⟩
  · have hlen₁ := hall.length_eq
    have hlen₂ := hsame.length_eq
    rw [hval, List.length_append] at hlen₂
    exact List.eq_nil_of_length_eq_zero (by omega)
  · rw [hval, hnil, List.nil_append]
    exact hall

theorem getSet_over (I : Impl) (c : Ty) {t : Ty} {get : t.Obj → Nat → Got t.Obj} {fresh : t.Obj}
    (hget : ∀ x, Gets m len get t.Same t.enc x fresh) (v w : Distinct t.type.Same) {pos : Nat}
    (h : Holds m len pos (encItems t.enc v.items)) :
    ((ObjType.set t.type).Same v (Buf.getSet I m len c get fresh w pos).val ↔
      ∀ x ∈ w.items, ∃ y ∈ v.items, t.Same x y) ∧
      (Buf.getSet I m len c get fresh w pos).ret = (encItems t.enc v.items).length := by
  have hturn : Turns m len (Buf.elemBody get fresh (insertSet I c t.type)) (Merged t.Same w) t.enc v.items := by
    apply elemBody_turns hlen hget
    intro s done x rest y _ hrel hxy
    exact @Merged.insert _ t.type.Same t.type.Same _ t.type.symm t.type.trans id I c w s done x y hrel hxy
  obtain ⟨hrel, hret⟩ := getLoop_gets hlen hturn (fun x _ => enc_pos t x) (Merged.refl w) h
  exact ⟨hrel.same_iff t.type.symm t.type.trans t.type.symm id, hret⟩

theorem getMap_over (I : Impl) (c : Ty) {k u : Ty} {get₁ : k.Obj → Nat → Got k.Obj}
    {get₂ : u.Obj → Nat → Got u.Obj} {fresh₁ : k.Obj} {fresh₂ : u.Obj}
    (hget₁ : ∀ x, Gets m len get₁ k.Same k.enc x fresh₁) (hget₂ : ∀ x, Gets m len get₂ u.Same u.enc x fresh₂)
    (v w : Distinct (SameKey k.type u.type)) {pos : Nat}
    (h : Holds m len pos (encItems (fun kv => k.enc kv.1 ++ u.enc kv.2) v.items)) :
    ((ObjType.map k.type u.type).Same v (Buf.getMap I m len c get₁ get₂ fresh₁ fresh₂ w pos).val ↔
      ∀ x ∈ w.items, ∃ y ∈ v.items, SamePair k.type u.type x y) ∧
      (Buf.getMap I m len c get₁ get₂ fresh₁ fresh₂ w pos).ret =
        (encItems (fun kv => k.enc kv.1 ++ u.enc kv.2) v.items).length := by
  have hturn : Turns m len (Buf.pairBody get₁ get₂ fresh₁ fresh₂ (insertMap I c k.type u.type))
      (Merged (SamePair k.type u.type) w) (fun kv => k.enc kv.1 ++ u.enc kv.2) v.items := by
    apply pairBody_turns hlen hget₁ hget₂
    intro s done x rest y _ hrel hxy
    exact @Merged.insert _ (SameKey k.type u.type) (SamePair k.type u.type) _ k.type.symm k.type.trans
      And.left I c w s done x y hrel hxy
  obtain ⟨hrel, hret⟩ := getLoop_gets hlen hturn (fun x _ => encPair_pos x) (Merged.refl w) h
  exact ⟨hrel.same_iff k.type.symm k.type.trans (fun h => ⟨k.type.symm h.1, u.type.symm h.2⟩) And.left, hret⟩

end

/-- Decoding an encoding onto any object: what is left of the object decides whether the result is equal. -/
theorem get_over (I : Impl) {m : Bytes.Memory} {len : Nat} (hlen : len < 4294967296) (t : Ty) (v w : t.Obj)
    {pos : Nat} (h : Holds m len pos (t.enc v)) :
    (t.Same v (Buf.get I m len t w pos).val ↔ t.Replaces w v) ∧
      (Buf.get I m len t w pos).ret = (t.enc v).length := by
  have elem : ∀ (t : Ty) x, Gets m len (Buf.get I m len t) t.Same t.enc x (t.fresh I) :=
    fun t x => get_spec I hlen t x _ (t.empty_fresh I)
  cases t with
  | fixed f =>
    obtain ⟨hval, hret⟩ := getFixed_gets hlen f v w pos h
    exact ⟨⟨fun _ => trivial, fun _ => hval⟩, hret⟩
  | string => exact getString_over hlen v w h
  | vector t => exact getVector_over hlen (elem t) v w h
  | set t => exact getSet_over hlen I _ (elem t) v w h
  | unorderedSet t => exact getSet_over hlen I _ (elem t) v w h
  | map k u => exact getMap_over hlen I _ (elem k) (elem u) v w h
  | unorderedMap k u => exact getMap_over hlen I _ (elem k) (elem u) v w h

/-- The same field by field. -/
theorem read_over (I : Impl) {ts : List Ty} (p q : Packet ts) (ar : Archive) (hmode : ar.mode = .read)
    (hlen : ar.len < 4294967296) (h : Holds ar.mem ar.len ar.pos (Packet.bytes ts p)) :
    Packet.Same ts p (serialize I ts ar q).2 ↔ Packet.Replaces ts q p := by
  induction ts generalizing ar with
  | nil => exact Iff.rfl
  | cons t ts ih =>
    have hbytes : Packet.bytes (t :: ts) p = t.enc p.1 ++ Packet.bytes ts p.2 := rfl
    rw [hbytes] at h
    have hfit := h.1
    rw [List.length_append] at hfit
    obtain ⟨hfst, hsnd⟩ := holds_append.mp h
    obtain ⟨hsame, hret⟩ := get_over I hlen t p.1 q.1 hfst
    have hpos : add32 ar.pos (t.enc p.1).length = ar.pos + (t.enc p.1).length := add32_of_lt (by omega)
    have hshl := shl_read I hmode t q.1
    rw [hret, hpos] at hshl
    have hrest := ih p.2 q.2 (ar.shl I t q.1).1 (by rw [hshl]; exact hmode) (by rw [hshl]; exact hlen)
      (by rw [hshl]; exact hsnd)
    have hser : (serialize I (t :: ts) ar q).2 =
      ((ar.shl I t q.1).2, (serialize I ts (ar.shl I t q.1).1 q.2).2) := rfl
    rw [hser, hshl] at *
    exact and_congr hsame hrest

theorem Packet.Same.symm {ts : List Ty} {p q : Packet ts} (h : Packet.Same ts p q) : Packet.Same ts q p := by
  induction ts with
  | nil => exact trivial
  | cons t ts ih => exact ⟨t.type.symm h.1, ih h.2⟩

theorem Packet.Same.trans {ts : List Ty} {p q r : Packet ts} (h : Packet.Same ts p q) (h' : Packet.Same ts q r) :
    Packet.Same ts p r := by
  induction ts with
  | nil => exact trivial
  | cons t ts ih => exact ⟨t.type.trans h.1 h'.1, ih h.2 h'.2⟩

theorem replaces_empty {ts : List Ty} {e : Packet ts} (he : Packet.Empty ts e) (p : Packet ts) :
    Packet.Replaces ts e p := by
  induction ts with
  | nil => exact trivial
  | cons t ts ih =>
    refine ⟨?_, ih he.2 p.2⟩
    have hfst := he.1
    cases t with
    | fixed f => exact trivial
    | string => exact fun _ => hfst
    | vector t => exact hfst
    | _ =>
      change _ = Distinct.empty at hfst
      intro x hx
      rw [hfst] at hx
      cases hx

section
variable {σ : Type} {P : IMemPool σ} (C : PoolContract P) (I : Impl)

/-- `make_from` reads what `buf` holds, whatever the packet was before. -/
theorem makeFrom_over {H : Multiset Nat} {ts : List Ty} {p : Packet ts} {b : Buf} {r : Ram σ}
    (hinv : C.Inv r (b.held + H)) (hlen : b.len < 4294967296) (hfull : b.len = (Packet.bytes ts p).length)
    (hbytes : Bytes.readAt (view r b) 0 b.len = Packet.bytes ts p) (q : Packet ts) :
    Packet.Same ts p (makeFrom I P ts r b q).2.2 ↔ Packet.Replaces ts q p := by
  rw [(makeFrom_reads C I hinv ts q).1]
  refine read_over I p q (.new .read (view r b) b.len) rfl hlen ⟨?_, ?_⟩
  · change 0 + _ ≤ b.len
    omega
  · rw [← hfull]
    exact hbytes

/-- Decoding overwrites its target exactly where nothing of the target's content is left over: an empty string is
decoded onto an empty one, a vector onto an empty one, and a set or a map onto elements of the one that is encoded. -/
theorem decode_overwrites_iff :
    (∀ (t : Ty) (v w : t.Obj) (m : Bytes.Memory) (len pos : Nat), len < 4294967296 → Holds m len pos (t.enc v) →
      (t.Same v (Buf.get I m len t w pos).val ↔ t.Replaces w v)) ∧
    ∀ (ts : List Ty) (p q e : Packet ts) (b : Buf) (r : Ram σ) (H : Multiset Nat), C.Inv r (b.held + H) →
      b.len < 4294967296 → b.len = (Packet.bytes ts p).length →
      Bytes.readAt (view r b) 0 b.len = Packet.bytes ts p → Packet.Empty ts e →
      (Packet.Same ts p (makeFrom I P ts r b q).2.2 ↔ Packet.Replaces ts q p) ∧
      (Packet.Same ts (makeFrom I P ts r b e).2.2 (makeFrom I P ts r b q).2.2 ↔ Packet.Replaces ts q p) := by
  refine ⟨fun t v w m len pos hlen h => (get_over I hlen t v w h).1, ?_⟩
  intro ts p q e b r H hinv hlen hfull hbytes he
  have hiff := makeFrom_over C I hinv hlen hfull hbytes q
  have hfresh := (makeFrom_over C I hinv hlen hfull hbytes e).mpr (replaces_empty he p)
  exact ⟨hiff, ⟨fun h => hiff.mp (hfresh.trans h), fun h => hfresh.symm.trans (hiff.mpr h)⟩⟩

end

/-- A packet with a non-empty text, read into one that holds another. -/
theorem decode_overwrites_iff_sample :
    let made := makeBuf Impl.plain memPool [.string] (fun _ p => p)
      (MemPool.init ⟨[16], fun _ => ⟨1, 1⟩, by decide⟩) (([104, 105] : List UInt8), ())
    Packet.Same [.string] (([104, 105] : List UInt8), ())
      (makeFrom Impl.plain memPool [.string] made.2.1 made.1 (([120] : List UInt8), ())).2.2 := by
  intro made
  have hinit : (memPool_contract (MemPool.configured ⟨[16], fun _ => ⟨1, 1⟩, by decide⟩) fun _ => none).Inv
      (MemPool.init ⟨[16], fun _ => ⟨1, 1⟩, by decide⟩) (heldBy [] + (([] : List Nat) : Multiset Nat)) :=
    MemPool.inv_init (by decide)
  have hkeeps : KeepsLengths [.string] (fun _ p => p) (([104, 105] : List UInt8), ()) := fun _ => rfl
  have hmade := (makeBuf_spec _ Impl.plain hkeeps (by decide) hinit).2
  have h := (decode_overwrites_iff (memPool_contract (MemPool.configured ⟨[16], fun _ => ⟨1, 1⟩, by decide⟩) fun _ => none)
    Impl.plain).2 [.string] (([104, 105] : List UInt8), ()) (([120] : List UInt8), ()) (([] : List UInt8), ()) _ _ _
    hmade.inv (by rw [hmade.len]; decide) hmade.len hmade.bytes ⟨rfl, trivial⟩
  exact h.1.mpr ⟨fun hnil => (by cases hnil), trivial⟩

/-- The encodings of an empty text, of a vector and of a map with one element each. -/
def overwriteBytes : Bytes.Memory := Bytes.writeAt (fun _ => 0) 4 [1, 0, 0, 0, 7, 9]

/-- An empty text leaves the old one, a vector is appended to the old one, and a map keeps the old value of a key. -/
theorem decode_overwrites_not :
    (Ty.enc .string ([] : List UInt8) = Bytes.readAt overwriteBytes 0 4 ∧
      ¬Ty.Same .string ([] : List UInt8) (Buf.get Impl.plain overwriteBytes 10 .string ([120] : List UInt8) 0).val) ∧
    (Ty.enc (.vector (.fixed (.prim 1))) ([⟨[7], rfl⟩] : List (FixedObj 1)) = Bytes.readAt overwriteBytes 4 5 ∧
      ¬Ty.Same (.vector (.fixed (.prim 1))) ([⟨[7], rfl⟩] : List (FixedObj 1))
        (Buf.get Impl.plain overwriteBytes 10 (.vector (.fixed (.prim 1))) ([⟨[5], rfl⟩] : List (FixedObj 1)) 4).val) ∧
    (Ty.enc (.map (.fixed (.prim 1)) (.fixed (.prim 1))) ⟨[(⟨[7], rfl⟩, ⟨[9], rfl⟩)], List.pairwise_singleton _ _⟩ =
        Bytes.readAt overwriteBytes 4 6 ∧
      ¬Ty.Same (.map (.fixed (.prim 1)) (.fixed (.prim 1)))
        ⟨[(⟨[7], rfl⟩, ⟨[9], rfl⟩)], List.pairwise_singleton _ _⟩
        (Buf.get Impl.plain overwriteBytes 10 (.map (.fixed (.prim 1)) (.fixed (.prim 1)))
          ⟨[(⟨[7], rfl⟩, ⟨[5], rfl⟩)], List.pairwise_singleton _ _⟩ 4).val) := by
  refine ⟨⟨by decide, ?_⟩, ⟨by decide, ?_⟩, ⟨by decide, ?_⟩⟩
  · exact @of_decide_eq_false _ ((Ty.type .string).dec _ _) rfl
  · exact @of_decide_eq_false _ ((Ty.type (.vector _)).dec _ _) rfl
  · exact @of_decide_eq_false _ ((Ty.type (.map _ _)).dec _ _) rfl

end Ven
