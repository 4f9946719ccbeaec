import Ven.Archive

namespace Ven

/-- Every byte that is read lies in `[0, len)`. -/
def Inside (len : Nat) (reads : List (Nat × Nat)) : Prop :=
  ∀ r ∈ reads, r.2 = 0 ∨ r.1 + r.2 ≤ len

instance (len : Nat) (reads : List (Nat × Nat)) : Decidable (Inside len reads) :=
  inferInstanceAs (Decidable (∀ r ∈ reads, r.2 = 0 ∨ r.1 + r.2 ≤ len))

theorem inside_append {len : Nat} {xs ys : List (Nat × Nat)} :
    Inside len (xs ++ ys) ↔ Inside len xs ∧ Inside len ys := by
  simp [Inside, or_imp, forall_and]

namespace Layout

-- the layout that the bytes of a buffer announce, in exact arithmetic
variable (m : Bytes.Memory) (len : Nat)

/-- Behind an object of a known size, or nowhere if it does not fit. There is no answer where the
sum is past the end but wraps to a number that is not. -/
def skip (pos size : Nat) : Option Nat :=
  if pos + size ≤ len then some (pos + size)
  else if len < (pos + size) % 4294967296 then some pos
  else none

def count (pos : Nat) : Option (Nat × Nat) :=
  (skip len pos 4).map fun next =>
    (if pos + 4 ≤ len then Bytes.leNat (Bytes.readAt m pos 4) else 0, next)

/-- There is no answer for a string that is announced longer than what is left. -/
def string (pos : Nat) : Option Nat :=
  (count m len pos).bind fun (cnt, pos) => if cnt = 0 ∨ pos + cnt ≤ len then some (pos + cnt) else none

def loop (step : Nat → Option Nat) : Nat → Nat → Option Nat
  | 0, pos => some pos
  | cnt + 1, pos => (step pos).bind (loop step cnt)

def elems (step : Nat → Option Nat) (pos : Nat) : Option Nat :=
  (count m len pos).bind fun (cnt, pos) => loop step cnt pos

def walk : Ty → Nat → Option Nat
  | .fixed f, pos => skip len pos (Sizer.sizeFixed f)
  | .string, pos => string m len pos
  | .vector t, pos => elems m len (walk t) pos
  | .set t, pos => elems m len (walk t) pos
  | .unorderedSet t, pos => elems m len (walk t) pos
  | .map k v, pos => elems m len (fun pos => (walk k pos).bind (walk v)) pos
  | .unorderedMap k v, pos => elems m len (fun pos => (walk k pos).bind (walk v)) pos

def walkAll : List Ty → Nat → Option Nat
  | [], pos => some pos
  | t :: ts, pos => (walk m len t pos).bind (walkAll ts)

end Layout

open Layout

/-- A decoding step from `pos` follows the walk: it arrives where the walk does and reads inside
the buffer, and it reads outside where the walk ends early. -/
def Follows (len pos pos' : Nat) (reads : List (Nat × Nat)) : Option Nat → Prop
  | some q => Inside len reads ∧ pos' = q ∧ pos ≤ q ∧ q ≤ max pos len
  | none => ¬Inside len reads

theorem Follows.inside {len pos pos' : Nat} {reads : List (Nat × Nat)} {walk : Option Nat}
    (h : Follows len pos pos' reads walk) : Inside len reads ↔ walk.isSome := by
  cases walk with
  | none => simpa [Follows] using h
  | some q => simpa [Follows] using h.1

/-- Two steps in a row follow the two walks in a row. -/
theorem Follows.bind {len p₀ p₁ p₂ : Nat} {r₁ r₂ : List (Nat × Nat)} {w₁ : Option Nat}
    {w₂ : Nat → Option Nat} (a : Follows len p₀ p₁ r₁ w₁) (b : Follows len p₁ p₂ r₂ (w₂ p₁)) :
    Follows len p₀ p₂ (r₁ ++ r₂) (w₁.bind w₂) := by
  cases w₁ with
  | none => exact fun h => a (inside_append.mp h).1
  | some q =>
    obtain ⟨hin, rfl, hle, hmax⟩ := a
    change Follows len p₀ p₂ (r₁ ++ r₂) (w₂ p₁)
    cases hw : w₂ p₁ with
    | none =>
      rw [hw] at b
      exact fun h => b (inside_append.mp h).2
    | some q =>
      rw [hw] at b
      obtain ⟨hin', rfl, hle', hmax'⟩ := b
      exact ⟨inside_append.mpr ⟨hin, hin'⟩, rfl, Nat.le_trans hle hle', by omega⟩

section
variable {I : Impl} {m : Bytes.Memory} {len : Nat}

theorem sizeFixed_lt (f : Fixed) : Sizer.sizeFixed f < 4294967296 := by
  cases f with
  | prim n _ => exact u32_lt _
  | array e c _ =>
    rw [Sizer.sizeFixed, mul32]
    exact u32_lt _

/-- `get` from `pos` follows the walk, and returns how far it went. -/
def GetFollows {α : Type} (len pos : Nat) (g : Got α) (walk : Option Nat) : Prop :=
  Follows len pos (add32 pos g.ret) g.reads walk ∧ (walk.isSome → pos + g.ret < 4294967296)

theorem getFixed_follows (hlen : len < 4294967296) {f : Fixed} {v : FixedObj f.bytes} {pos : Nat}
    (hpos : pos < 4294967296) :
    GetFollows len pos (Buf.getFixed m len f v pos) (skip len pos (Sizer.sizeFixed f)) := by
  have hsize := sizeFixed_lt f
  have hadd := add32_eq pos (Sizer.sizeFixed f)
  unfold Buf.getFixed skip
  dsimp only
  by_cases hfit : pos + Sizer.sizeFixed f ≤ len
  · have hsum := add32_of_lt (show pos + Sizer.sizeFixed f < 4294967296 by omega)
    rw [if_neg (by omega), if_pos hfit]
    refine ⟨⟨?_, hsum, by omega, by omega⟩, fun _ => by change pos + Sizer.sizeFixed f < _; omega⟩
    intro r hr
    cases List.mem_singleton.mp hr
    exact Or.inr hfit
  · rw [if_neg hfit]
    by_cases hrej : len < (pos + Sizer.sizeFixed f) % 4294967296
    · rw [if_pos (by omega), if_pos hrej]
      refine ⟨⟨fun r hr => (by cases hr), ?_, by omega, by omega⟩, fun _ => by change pos + 0 < _; omega⟩
      exact add32_of_lt (by omega)
    · rw [if_neg (by omega), if_neg hrej]
      refine ⟨fun hin => ?_, fun h => by cases h⟩
      rcases hin _ (List.mem_singleton.mpr rfl) with h | h
      · -- nothing is read only where the check without wrapping would have passed
        change Sizer.sizeFixed f = 0 at h
        omega
      · exact hfit h

theorem getCnt_follows (hlen : len < 4294967296) {pos : Nat} (hpos : pos < 4294967296) :
    GetFollows len pos (Buf.getCnt m len pos).1 ((count m len pos).map Prod.snd) ∧
      (Buf.getCnt m len pos).2 = add32 pos (Buf.getCnt m len pos).1.ret ∧
      ∀ cnt next, count m len pos = some (cnt, next) →
        (Buf.getCnt m len pos).1.val = cnt ∧ (Buf.getCnt m len pos).2 = next := by
  have h := getFixed_follows (m := m) hlen (f := .uint32) (v := ⟨Bytes.leBytes 4 0, rfl⟩) hpos
  have hmap : (count m len pos).map Prod.snd = skip len pos 4 := by
    unfold count
    cases skip len pos 4 <;> rfl
  have hsize : Sizer.sizeFixed .uint32 = 4 := rfl
  rw [hsize] at h
  refine ⟨by rw [hmap]; exact h, rfl, fun cnt next hc => ?_⟩
  obtain ⟨next', hs, hc⟩ := Option.map_eq_some_iff.mp hc
  rw [hs] at h
  obtain ⟨⟨_, harr, _, _⟩, _⟩ := h
  have hnext : next' = next := congrArg Prod.snd hc
  have hcnt : (if pos + 4 ≤ len then Bytes.leNat (Bytes.readAt m pos 4) else 0) = cnt := congrArg Prod.fst hc
  refine ⟨?_, harr.trans hnext⟩
  rw [← hcnt]
  have hadd := add32_eq pos 4
  unfold Buf.getCnt Buf.getFixed
  dsimp only
  rw [hsize]
  by_cases hfit : pos + 4 ≤ len
  · rw [if_neg (by omega), if_pos hfit]
    have hl := Bytes.length_readAt m pos 4
    simp only [FixedObj.memcpy]
    change Bytes.leNat (List.take 4 _) = _
    rw [List.take_append_of_le_length (by omega), List.take_of_length_le (by omega)]
  · have hrej : len < add32 pos 4 := by
      unfold skip at hs
      rw [if_neg hfit] at hs
      split at hs
      next => omega
      next => cases hs
    rw [if_pos hrej, if_neg hfit]
    rfl

theorem getString_follows (hlen : len < 4294967296) {v : List UInt8} {pos : Nat}
    (hpos : pos < 4294967296) :
    GetFollows len pos (Buf.getString m len v pos) (Layout.string m len pos) := by
  obtain ⟨hcount, hmove, hval⟩ := getCnt_follows (m := m) hlen hpos
  unfold Layout.string Buf.getString
  cases hc : count m len pos with
  | none =>
    rw [hc] at hcount
    -- the bytes of the count are outside already
    refine ⟨fun hin => hcount.1 ?_, fun h => by cases h⟩
    dsimp only at hin
    split at hin
    next => exact hin
    next => exact (inside_append.mp hin).1
  | some found =>
    obtain ⟨cnt, next⟩ := found
    obtain ⟨hcnt, hnext⟩ := hval cnt next hc
    rw [hc] at hcount
    obtain ⟨⟨hin, harr, hle, hmax⟩, hsum⟩ := hcount
    have hsum' := hsum rfl
    have hret := add32_of_lt hsum'
    change add32 pos (Buf.getCnt m len pos).1.ret = next at harr
    change pos ≤ next at hle
    change next ≤ max pos len at hmax
    simp only [Option.bind_some]
    by_cases hz : cnt = 0
    · rw [if_pos (by omega), if_pos (Or.inl hz), hz, Nat.add_zero]
      exact ⟨⟨hin, harr, hle, hmax⟩, fun _ => hsum'⟩
    · rw [if_neg (by omega), hcnt, hnext]
      by_cases hfit : next + cnt ≤ len
      · rw [if_pos (Or.inr hfit)]
        have hadd : add32 (Buf.getCnt m len pos).1.ret cnt = (Buf.getCnt m len pos).1.ret + cnt :=
          add32_of_lt (by omega)
        refine ⟨⟨inside_append.mpr ⟨hin, ?_⟩, ?_, by omega, by omega⟩, fun _ => ?_⟩
        · intro r hr
          cases List.mem_singleton.mp hr
          exact Or.inr hfit
        · change add32 pos (add32 _ cnt) = next + cnt
          rw [hadd, add32_of_lt (by omega)]
          omega
        · change pos + add32 _ cnt < _
          omega
      · rw [if_neg (fun h => h.elim hz hfit)]
        refine ⟨fun h => ?_, fun h => by cases h⟩
        rcases (inside_append.mp h).2 _ (List.mem_singleton.mpr rfl) with h | h
        · exact hz h
        · exact hfit h

/-- One turn of a decoding loop follows one step of the walk. -/
def BodyFollows {γ : Type} (len : Nat) (body : GetLoop γ → GetLoop γ) (step : Nat → Option Nat) : Prop :=
  ∀ s : GetLoop γ, s.pos < 4294967296 → ∃ moved rs, (body s).reads = s.reads ++ rs ∧
    (body s).pos = add32 s.pos moved ∧ (body s).size = add32 s.size moved ∧
    Follows len s.pos (add32 s.pos moved) rs (step s.pos) ∧ ((step s.pos).isSome → s.pos + moved < 4294967296)

theorem iterate_follows {γ : Type} {body : GetLoop γ → GetLoop γ} {step : Nat → Option Nat}
    (hbody : BodyFollows len body step) (cnt : Nat) {s : GetLoop γ} (hpos : s.pos < 4294967296)
    (hsize : s.size < 4294967296) :
    ∃ moved rs, (body^[cnt] s).reads = s.reads ++ rs ∧ (body^[cnt] s).size = add32 s.size moved ∧
      Follows len s.pos (add32 s.pos moved) rs (Layout.loop step cnt s.pos) ∧
      ((Layout.loop step cnt s.pos).isSome → s.pos + moved < 4294967296) := by
  induction cnt generalizing s with
  | zero =>
    refine ⟨0, [], (List.append_nil _).symm, (add32_zero hsize).symm, ?_, fun _ => hpos⟩
    exact ⟨fun r hr => (by cases hr), add32_zero hpos, Nat.le_refl _, Nat.le_max_left _ _⟩
  | succ cnt ih =>
    obtain ⟨d₁, r₁, hr₁, hp₁, hs₁, hf₁, hb₁⟩ := hbody s hpos
    have hpos' : (body s).pos < 4294967296 := hp₁ ▸ add32_lt _ _
    have hsize' : (body s).size < 4294967296 := hs₁ ▸ add32_lt _ _
    obtain ⟨d₂, r₂, hr₂, hs₂, hf₂, hb₂⟩ := ih hpos' hsize'
    rw [hp₁] at hf₂ hb₂
    have hboth := hf₁.bind hf₂
    rw [add32_add] at hboth
    refine ⟨d₁ + d₂, r₁ ++ r₂, ?_, ?_, hboth, fun h => ?_⟩
    · rw [Function.iterate_succ_apply, hr₂, hr₁, List.append_assoc]
    · rw [Function.iterate_succ_apply, hs₂, hs₁, add32_add]
    · obtain ⟨q, hq⟩ := Option.isSome_iff_exists.mp h
      obtain ⟨p, hp, hq⟩ := Option.bind_eq_some_iff.mp hq
      have h₁ := hb₁ (by rw [hp]; rfl)
      have hsum := add32_of_lt h₁
      rw [hp] at hf₁
      have harr : add32 s.pos d₁ = p := hf₁.2.1
      have h₂ := hb₂ (by rw [harr, hq]; rfl)
      omega

theorem elemBody_follows {α β : Type} {get : α → Nat → Got α} {t : α} {insert : β → α → β}
    {walk : Nat → Option Nat} (hget : ∀ pos, pos < 4294967296 → GetFollows len pos (get t pos) (walk pos)) :
    BodyFollows len (Buf.elemBody get t insert) walk := by
  intro s hpos
  obtain ⟨hf, hb⟩ := hget s.pos hpos
  exact ⟨(get t s.pos).ret, (get t s.pos).reads, rfl, rfl, rfl, hf, hb⟩

theorem pairBody_follows {α β γ : Type} {get₁ : α → Nat → Got α} {get₂ : β → Nat → Got β} {t₁ : α} {t₂ : β}
    {insert : γ → α × β → γ} {walk₁ walk₂ : Nat → Option Nat}
    (hget₁ : ∀ pos, pos < 4294967296 → GetFollows len pos (get₁ t₁ pos) (walk₁ pos))
    (hget₂ : ∀ pos, pos < 4294967296 → GetFollows len pos (get₂ t₂ pos) (walk₂ pos)) :
    BodyFollows len (Buf.pairBody get₁ get₂ t₁ t₂ insert) (fun pos => (walk₁ pos).bind walk₂) := by
  intro s hpos
  let g₁ := get₁ t₁ s.pos
  let g₂ := get₂ t₂ (add32 s.pos g₁.ret)
  obtain ⟨hf₁, hb₁⟩ := hget₁ s.pos hpos
  obtain ⟨hf₂, hb₂⟩ := hget₂ (add32 s.pos g₁.ret) (add32_lt _ _)
  have hboth := hf₁.bind hf₂
  rw [add32_add] at hboth
  refine ⟨g₁.ret + g₂.ret, g₁.reads ++ g₂.reads, ?_, ?_, ?_, hboth, fun h => ?_⟩
  · exact List.append_assoc _ _ _
  · exact add32_add _ _ _
  · exact add32_add _ _ _
  · obtain ⟨q, hq⟩ := Option.isSome_iff_exists.mp h
    obtain ⟨p, hp, hq⟩ := Option.bind_eq_some_iff.mp hq
    have h₁ := hb₁ (by rw [hp]; rfl)
    have hsum := add32_of_lt h₁
    rw [hp] at hf₁
    have harr : add32 s.pos g₁.ret = p := hf₁.2.1
    have h₂ := hb₂ (by rw [harr, hq]; rfl)
    change s.pos + g₁.ret < 4294967296 at h₁
    change add32 s.pos g₁.ret = s.pos + g₁.ret at hsum
    change add32 s.pos g₁.ret + g₂.ret < 4294967296 at h₂
    omega

theorem getLoop_follows {γ : Type} (hlen : len < 4294967296) {body : GetLoop γ → GetLoop γ}
    {step : Nat → Option Nat} (hbody : BodyFollows len body step) {v : γ} {pos : Nat} (hpos : pos < 4294967296) :
    GetFollows len pos (Buf.getLoop m len body v pos) (elems m len step pos) := by
  obtain ⟨hcount, hmove, hval⟩ := getCnt_follows (m := m) hlen hpos
  let c := (Buf.getCnt m len pos).1
  let start : GetLoop γ := ⟨v, c.ret, (Buf.getCnt m len pos).2, c.reads⟩
  have hgot : Buf.getLoop m len body v pos =
      ⟨(body^[c.val] start).v, (body^[c.val] start).size, (body^[c.val] start).reads⟩ := rfl
  have hstart : start.pos < 4294967296 := by
    change (Buf.getCnt m len pos).2 < _
    rw [hmove]
    exact add32_lt _ _
  have hret : start.size < 4294967296 := by
    change (Buf.getFixed m len .uint32 _ pos).ret < _
    unfold Buf.getFixed
    dsimp only
    split
    next => exact Nat.zero_lt_succ _
    next => exact sizeFixed_lt _
  obtain ⟨d, rs, hr, hs, hf, hb⟩ := iterate_follows hbody c.val hstart hret
  unfold elems
  cases hc : count m len pos with
  | none =>
    rw [hc] at hcount
    refine ⟨fun hin => hcount.1 ?_, fun h => by cases h⟩
    rw [hgot, hr] at hin
    exact (inside_append.mp hin).1
  | some found =>
    obtain ⟨cnt, next⟩ := found
    obtain ⟨hcnt, hnext⟩ := hval cnt next hc
    rw [hc] at hcount
    obtain ⟨hfc, hsum⟩ := hcount
    have hpos₀ : start.pos = next := hnext
    have hval₀ : c.val = cnt := hcnt
    rw [hpos₀, hval₀] at hf hb
    rw [hval₀] at hr hs
    rw [hgot, hval₀]
    have harr : add32 pos c.ret = next := hfc.2.1
    have hf' : Follows len (add32 pos c.ret) (add32 (add32 pos c.ret) d) rs
        (Layout.loop step cnt (add32 pos c.ret)) := by
      rw [harr]
      exact hf
    have hboth := hfc.bind hf'
    rw [add32_add] at hboth
    refine ⟨?_, fun h => ?_⟩
    · rw [hs, add32_add_right, hr]
      exact hboth
    · have h₁ := hsum rfl
      have h₂ := hb h
      have hadd := add32_of_lt h₁
      change pos + c.ret < 4294967296 at h₁
      change add32 pos c.ret = pos + c.ret at hadd
      have hle := add32_of_lt (show c.ret + d < 4294967296 by omega)
      rw [hs]
      change pos + add32 c.ret d < 4294967296
      omega

/-- Decoding any type follows the layout that the bytes announce. -/
theorem get_follows (hlen : len < 4294967296) (t : Ty) (v : t.Obj) {pos : Nat} (hpos : pos < 4294967296) :
    GetFollows len pos (Buf.get I m len t v pos) (walk m len t pos) := by
  induction t generalizing pos with
  | fixed f => exact getFixed_follows hlen hpos
  | string => exact getString_follows hlen hpos
  | vector t ih => exact getLoop_follows hlen (elemBody_follows fun pos hpos => ih _ hpos) hpos
  | set t ih => exact getLoop_follows hlen (elemBody_follows fun pos hpos => ih _ hpos) hpos
  | unorderedSet t ih => exact getLoop_follows hlen (elemBody_follows fun pos hpos => ih _ hpos) hpos
  | map k w ihk ihw =>
    exact getLoop_follows hlen
      (pairBody_follows (fun pos hpos => ihk _ hpos) (fun pos hpos => ihw _ hpos)) hpos
  | unorderedMap k w ihk ihw =>
    exact getLoop_follows hlen
      (pairBody_follows (fun pos hpos => ihk _ hpos) (fun pos hpos => ihw _ hpos)) hpos

/-- The read pass over a packet follows the layout of its fields one after the other. -/
theorem serialize_follows (hlen : len < 4294967296) {ts : List Ty} (p : Packet ts) (ar : Archive)
    (hmode : ar.mode = .read) (hm : ar.mem = m) (hl : ar.len = len) (hpos : ar.pos < 4294967296) :
    ∃ rs qs, (Archive.serialize I ts ar p).1.reads = ar.reads ++ rs ∧
      (Archive.serialize I ts ar p).1.trail = ar.trail ++ qs ∧
      ((walkAll m len ts ar.pos).isSome → Inside len rs ∧ (ar.pos ≤ len → ∀ q ∈ qs, q ≤ len)) ∧
      (¬(walkAll m len ts ar.pos).isSome → ¬Inside len rs) := by
  induction ts generalizing ar with
  | nil =>
    refine ⟨[], [], (List.append_nil _).symm, (List.append_nil _).symm, fun _ => ⟨?_, ?_⟩, fun h => ?_⟩
    · exact fun r hr => (by cases hr)
    · exact fun _ q hq => (by cases hq)
    · exact absurd rfl h
  | cons t ts ih =>
    let g := Buf.get I ar.mem ar.len t p.1 ar.pos
    let ar' : Archive := { ar with
      pos := add32 ar.pos g.ret
      reads := ar.reads ++ g.reads
      trail := ar.trail ++ [add32 ar.pos g.ret] }
    have hshl : (ar.shl I t p.1).1 = ar' := by rw [Archive.shl_read I hmode]
    have hser : (Archive.serialize I (t :: ts) ar p).1 = (Archive.serialize I ts ar' p.2).1 := by
      change (Archive.serialize I ts (ar.shl I t p.1).1 p.2).1 = _
      rw [hshl]
    have hget : GetFollows len ar.pos g (walk m len t ar.pos) := by
      change GetFollows len ar.pos (Buf.get I ar.mem ar.len t p.1 ar.pos) _
      rw [hm, hl]
      exact get_follows hlen t p.1 hpos
    obtain ⟨rs, qs, hr, hq, hyes, hno⟩ := ih p.2 ar' hmode hm hl (add32_lt _ _)
    rw [hser]
    refine ⟨g.reads ++ rs, add32 ar.pos g.ret :: qs, ?_, ?_, ?_, ?_⟩
    · rw [hr, ← List.append_assoc]
    · rw [hq, List.append_assoc]
      rfl
    · intro h
      obtain ⟨q, hw⟩ := Option.isSome_iff_exists.mp h
      obtain ⟨next, hn, hw⟩ := Option.bind_eq_some_iff.mp hw
      have hf := hget.1
      rw [hn] at hf
      obtain ⟨hin, harr, _, hmax⟩ := hf
      have hnext : ar'.pos = next := harr
      obtain ⟨hin', hqs⟩ := hyes (by rw [hnext, hw]; rfl)
      refine ⟨inside_append.mpr ⟨hin, hin'⟩, fun hle q hmem => ?_⟩
      have hle' : ar'.pos ≤ len := by omega
      rcases List.mem_cons.mp hmem with rfl | hmem
      · exact hle'
      · exact hqs hle' q hmem
    · intro h hin
      obtain ⟨hin₁, hin₂⟩ := inside_append.mp hin
      obtain ⟨next, hn⟩ := Option.isSome_iff_exists.mp (hget.1.inside.mp hin₁)
      have hf := hget.1
      rw [hn] at hf
      have hnext : ar'.pos = next := hf.2.1
      refine hno (fun hw => h ?_) hin₂
      rw [hnext] at hw
      change ((walk m len t ar.pos).bind (walkAll m len ts)).isSome = true
      rw [hn]
      exact hw

end

/-- A decoder stays inside its buffer exactly where the layout announced by the bytes can be
honoured; the same goes for a sequence of fields and the archive's position. -/
theorem decode_inside_iff (I : Impl) (m : Bytes.Memory) {len : Nat} (hlen : len < 4294967296) :
    (∀ (t : Ty) (v : t.Obj) (pos : Nat), pos < 4294967296 →
      (Inside len (Buf.get I m len t v pos).reads ↔ (walk m len t pos).isSome)) ∧
    (∀ (ts : List Ty) (p : Packet ts),
      (Inside len (Archive.serialize I ts (.new .read m len) p).1.reads ∧
        ∀ q ∈ (Archive.serialize I ts (.new .read m len) p).1.trail, q ≤ len) ↔
      (walkAll m len ts 0).isSome) := by
  refine ⟨fun t v pos hpos => (get_follows hlen t v hpos).1.inside, fun ts p => ?_⟩
  obtain ⟨rs, qs, hr, hq, hyes, hno⟩ :=
    serialize_follows (I := I) hlen p (.new .read m len) rfl rfl rfl (Nat.zero_lt_succ _)
  have hr' : (Archive.serialize I ts (.new .read m len) p).1.reads = rs := hr
  have hq' : (Archive.serialize I ts (.new .read m len) p).1.trail = qs := hq
  rw [hr', hq']
  constructor
  · rintro ⟨hin, _⟩
    by_contra h
    exact hno h hin
  · intro h
    obtain ⟨hin, htrail⟩ := hyes h
    exact ⟨hin, htrail (Nat.zero_le _)⟩

/-- A `uint16_t`, and a vector of two strings. -/
def twoStrings : Bytes.Memory := Bytes.writeAt (fun _ => 0) 0 [7, 0, 2, 0, 0, 0, 2, 0, 0, 0, 104, 105, 1, 0, 0, 0, 33]

theorem decode_inside_iff_sample :
    Inside 17 (Buf.get Impl.plain twoStrings 17 (.vector .string) ([] : List (List UInt8)) 2).reads ∧
    Inside 17 (Archive.serialize Impl.plain [.fixed (.prim 2), .vector .string] (.new .read twoStrings 17)
      (⟨[0, 0], rfl⟩, ([] : List (List UInt8)), ())).1.reads := by
  have vector : (walk twoStrings 17 (.vector .string) 2).isSome = true := by decide
  have both : (walkAll twoStrings 17 [.fixed (.prim 2), .vector .string] 0).isSome = true := by decide
  have h := decode_inside_iff Impl.plain twoStrings (show 17 < 4294967296 by decide)
  exact ⟨(h.1 (.vector .string) ([] : List (List UInt8)) 2 (by decide)).mpr vector,
    ((h.2 [.fixed (.prim 2), .vector .string] (⟨[0, 0], rfl⟩, ([] : List (List UInt8)), ())).mpr both).1⟩

/-- A count of 5 and nothing behind it. -/
def shortString : Bytes.Memory := Bytes.writeAt (fun _ => 0) 0 [5, 0, 0, 0]

/-- A string is read past the end of the buffer, and the archive moves past it. -/
theorem decode_not_inside :
    ¬Inside 4 (Buf.get Impl.plain shortString 4 .string ([] : List UInt8) 0).reads ∧
    ¬∀ q ∈ (Archive.serialize Impl.plain [.string] (.new .read shortString 4) (([] : List UInt8), ())).1.trail,
      q ≤ 4 := by
  constructor
  · decide
  · decide

end Ven
