import Ven.Links
import Ven.Word
import Mathlib.Data.List.TakeDrop

namespace Ven

/-- A list of nodes that are linked by their `next_`. -/
structure SList (ν : Type) where
  cnt : Nat
  start : Option ν
  end_ : Option ν
deriving DecidableEq

namespace SList

variable {ν : Type} [DecidableEq ν]

def empty : SList ν := ⟨0, none, none⟩

def pop (next : ν → Option ν) (s : SList ν) : Option ν × SList ν × (ν → Option ν) :=
  if s.cnt = 0 then (none, s, next)
  else
    match s.start with
    -- a list with a count has a first node
    | none => (none, s, next)
    | some n =>
      let s :=
        if s.cnt = 1 then { s with start := none, end_ := none }
        else if s.cnt = 2 then { s with start := next n, end_ := next n }
        else { s with start := next n }
      (some n, { s with cnt := pred32 s.cnt }, Function.update next n none)

def push (next : ν → Option ν) (s : SList ν) (n : ν) : SList ν × (ν → Option ν) :=
  if s.cnt = 0 then (⟨add32 s.cnt 1, some n, some n⟩, Function.update next n none)
  else (⟨add32 s.cnt 1, some n, s.end_⟩, Function.update next n s.start)

/-- The loop of `pop(cnt, s)` from the node `e` on: the node it ends at, and how many it has counted. -/
def walk (next : ν → Option ν) : Nat → ν → ν × Nat
  | 0, e => (e, 1)
  | k + 1, e =>
    match next e with
    | none => (e, 1)
    | some e' => ((walk next k e').1, (walk next k e').2 + 1)

/-- `pop(cnt, s)`: the list, what `s` is then, and the links. -/
def popSome (next : ν → Option ν) (s : SList ν) (cnt : Nat) (r : SList ν) : SList ν × SList ν × (ν → Option ν) :=
  if cnt = 0 then (s, r, next)
  else if s.cnt = 0 then (s, r, next)
  else
    match s.start with
    | none => (s, r, next)
    | some b =>
      let (e, c) := walk next (cnt - 1) b
      let start := next e
      (⟨u32 ((s.cnt : Int) - c), start, if start = none then none else s.end_⟩, ⟨c, s.start, some e⟩,
        Function.update next e none)

/-- `push(s)`: the list, what `s` is then, and the links. -/
def pushAll (next : ν → Option ν) (s r : SList ν) : SList ν × SList ν × (ν → Option ν) :=
  if r.cnt = 0 then (s, r, next)
  else if s.cnt = 0 then (⟨add32 s.cnt r.cnt, r.start, r.end_⟩, empty, next)
  else
    match r.end_ with
    | none => (s, r, next)
    | some e => (⟨add32 s.cnt r.cnt, r.start, s.end_⟩, empty, Function.update next e s.start)

/-- The list has the nodes of `l`. -/
structure Is (next : ν → Option ν) (s : SList ν) (l : List ν) : Prop where
  cnt : s.cnt = l.length
  chain : Links.Spells next s.start l
  last : s.end_ = l.getLast?
  bits : l.length < 4294967296

variable {next next' : ν → Option ν} {s r : SList ν} {l k : List ν} {n : ν}

omit [DecidableEq ν] in
theorem is_empty (next : ν → Option ν) : Is next (empty : SList ν) [] := ⟨rfl, rfl, rfl, Nat.zero_lt_succ _⟩

omit [DecidableEq ν] in
theorem Is.congr (same : ∀ x ∈ l, next' x = next x) (h : Is next s l) : Is next' s l :=
  ⟨h.cnt, h.chain.congr same, h.last, h.bits⟩

omit [DecidableEq ν] in
theorem Is.eq_empty (h : Is next s []) : s = empty := by
  obtain ⟨cnt, start, last⟩ := s
  have hcnt : cnt = 0 := h.cnt
  have hstart : start = none := h.chain
  have hlast : last = none := h.last
  rw [hcnt, hstart, hlast]
  rfl

omit [DecidableEq ν] in
theorem Is.cnt_nil (h : Is next s []) : s.cnt = 0 := h.cnt

omit [DecidableEq ν] in
theorem Is.cnt_cons (h : Is next s (n :: l)) : s.cnt = l.length + 1 := h.cnt

theorem Is.pop_nil (h : Is next s []) : s.pop next = (none, s, next) := if_pos h.cnt_nil

theorem Is.pop_cons (h : Is next s (n :: l)) (hn : n ∉ l) :
    ∃ s', s.pop next = (some n, s', Function.update next n none) ∧ Is (Function.update next n none) s' l := by
  have hcnt := h.cnt_cons
  have hbits : l.length + 1 < 4294967296 := h.bits
  have hchain : Links.Spells (Function.update next n none) (next n) l := h.chain.2.update hn none
  have hpred : pred32 (l.length + 1) = l.length := pred32_of_pos (Nat.succ_pos _)
  unfold SList.pop
  rw [if_neg (by omega), h.chain.1]
  refine ⟨_, rfl, ?_⟩
  cases l with
  | nil =>
    have hone : s.cnt = 1 := hcnt
    rw [if_pos hone]
    exact ⟨by change pred32 s.cnt = 0; rw [hone]; rfl, rfl, rfl, Nat.zero_lt_succ _⟩
  | cons x l =>
    rw [if_neg (by rw [hcnt, List.length_cons]; omega)]
    cases l with
    | nil =>
      have htwo : s.cnt = 2 := hcnt
      rw [if_pos htwo]
      exact ⟨by change pred32 s.cnt = 1; rw [htwo]; rfl, hchain, hchain.1, by change 1 < 4294967296; omega⟩
    | cons y l =>
      rw [if_neg (by rw [hcnt, List.length_cons, List.length_cons]; omega)]
      refine ⟨by change pred32 s.cnt = _; rw [hcnt, hpred], hchain, ?_, Nat.lt_of_succ_lt hbits⟩
      change s.end_ = _
      rw [h.last, List.getLast?_cons_cons]

theorem Is.push (h : Is next s l) (hn : n ∉ l) (hbits : l.length + 1 < 4294967296) :
    ∃ s' v, s.push next n = (s', Function.update next n v) ∧ Is (Function.update next n v) s' (n :: l) := by
  unfold SList.push
  have hadd : add32 s.cnt 1 = l.length + 1 := by rw [h.cnt, add32_of_lt hbits]
  cases l with
  | nil =>
    rw [if_pos h.cnt_nil]
    exact ⟨_, _, rfl, hadd, ⟨rfl, Function.update_self _ _ _⟩, rfl, hbits⟩
  | cons x l =>
    rw [if_neg (by rw [h.cnt_cons]; omega)]
    refine ⟨_, _, rfl, hadd, ⟨rfl, ?_⟩, ?_, hbits⟩
    · rw [Function.update_self]
      exact h.chain.update hn s.start
    · rw [List.getLast?_cons_cons]
      exact h.last

omit [DecidableEq ν] in
theorem walk_spec {b : ν} (cnt : Nat) (h : Links.Spells next (some b) l) :
    (l.take (cnt + 1)).getLast? = some (walk next cnt b).1 ∧ (l.take (cnt + 1)).length = (walk next cnt b).2 := by
  induction cnt generalizing b l with
  | zero =>
    cases l with
    | nil => cases h
    | cons x l =>
      cases Option.some.inj h.1
      simp [walk]
  | succ cnt ih =>
    cases l with
    | nil => cases h
    | cons x l =>
      cases Option.some.inj h.1
      have hrest := h.2
      unfold walk
      cases hb : next b with
      | none =>
        rw [hb] at hrest
        cases l with
        | nil => exact ⟨rfl, rfl⟩
        | cons y l => cases hrest.1
      | some e =>
        rw [hb] at hrest
        cases l with
        | nil => cases hrest
        | cons y l =>
          obtain ⟨hlast, hlen⟩ := ih hrest
          refine ⟨?_, ?_⟩
          · rw [List.take_succ_cons, List.take_succ_cons, List.getLast?_cons_cons, ← List.take_succ_cons]
            exact hlast
          · rw [List.take_succ_cons, List.length_cons, hlen]

/-- The first `cnt` nodes, or all there are, move to the other list. -/
theorem Is.popSome (h : Is next s l) (hnodup : l.Nodup) (cnt : Nat) :
    ∃ s' r' next', s.popSome next cnt empty = (s', r', next') ∧ Is next' s' (l.drop cnt) ∧ Is next' r' (l.take cnt) ∧
      ∀ x, x ∉ l → next' x = next x := by
  unfold SList.popSome
  cases cnt with
  | zero => exact ⟨_, _, _, rfl, h, is_empty next, fun _ _ => rfl⟩
  | succ cnt =>
    rw [if_neg (Nat.succ_ne_zero cnt)]
    cases l with
    | nil =>
      rw [if_pos h.cnt_nil]
      exact ⟨_, _, _, rfl, h, is_empty next, fun _ _ => rfl⟩
    | cons b l =>
      rw [if_neg (by rw [h.cnt_cons]; omega), h.chain.1]
      have hchain := h.chain
      rw [hchain.1] at hchain
      obtain ⟨hlast, hlen⟩ := walk_spec cnt hchain
      have hsplit := List.take_append_drop (cnt + 1) (b :: l)
      have hmem : (walk next cnt b).1 ∈ b :: l := List.mem_of_mem_take (List.mem_of_getLast? hlast)
      obtain ⟨htake, hdrop⟩ := Links.Spells.cut (k := (b :: l).drop (cnt + 1)) (by rw [hsplit]; exact hnodup) hlast
        (by rw [hsplit]; exact hchain)
      have hbits := h.bits
      have hcounted : (walk next cnt b).2 ≤ (b :: l).length := by
        rw [← hlen]
        exact List.length_take_le' _ _
      refine ⟨_, _, _, rfl, ⟨?_, hdrop, ?_, ?_⟩, ⟨hlen.symm, htake, hlast.symm, ?_⟩, ?_⟩
      · change u32 ((s.cnt : Int) - (walk next cnt b).2) = _
        rw [h.cnt, u32_sub hcounted hbits, List.length_drop, ← hlen, List.length_take]
        omega
      · change (if next (walk next cnt b).1 = none then none else s.end_) = _
        rw [← hdrop.head, h.last]
        cases hd : (b :: l).drop (cnt + 1) with
        | nil => rfl
        | cons y rest =>
          rw [hd] at hsplit
          rw [if_neg (by simp), ← hsplit, List.getLast?_append_cons]
      · exact Nat.lt_of_le_of_lt (by rw [List.length_drop]; omega) hbits
      · exact Nat.lt_of_le_of_lt (List.length_take_le' _ _) hbits
      · intro x hx
        exact Function.update_of_ne (fun he : x = _ => hx (he ▸ hmem)) _ _

/-- All nodes of the other list move to the front. -/
theorem Is.pushAll (h : Is next s l) (hr : Is next r k) (hnodup : k.Nodup) (hapart : ∀ x ∈ k, x ∉ l)
    (hbits : k.length + l.length < 4294967296) :
    ∃ s' next', s.pushAll next r = (s', empty, next') ∧ Is next' s' (k ++ l) ∧ ∀ x, x ∉ k → next' x = next x := by
  unfold SList.pushAll
  have hadd : add32 s.cnt r.cnt = (k ++ l).length := by
    rw [h.cnt, hr.cnt, add32_of_lt (by omega), List.length_append, Nat.add_comm]
  have hlen : (k ++ l).length < 4294967296 := by
    rw [List.length_append]
    exact hbits
  cases k with
  | nil =>
    rw [if_pos hr.cnt_nil, hr.eq_empty]
    exact ⟨_, _, rfl, h, fun _ _ => rfl⟩
  | cons x k =>
    rw [if_neg (by rw [hr.cnt_cons]; omega)]
    obtain ⟨e, he⟩ := Option.isSome_iff_exists.mp (show (x :: k).getLast?.isSome by simp)
    have hmem : e ∈ x :: k := List.mem_of_getLast? he
    cases l with
    | nil =>
      rw [if_pos h.cnt_nil]
      refine ⟨_, _, rfl, ⟨hadd, ?_, ?_, hlen⟩, fun _ _ => rfl⟩
      · rw [List.append_nil]
        exact hr.chain
      · rw [List.append_nil]
        exact hr.last
    | cons y l =>
      rw [if_neg (by rw [h.cnt_cons]; omega), hr.last, he]
      refine ⟨_, _, rfl, ⟨hadd, ?_, ?_, hlen⟩, fun z hz => Function.update_of_ne (fun hze : z = e => hz (hze ▸ hmem)) _ _⟩
      · exact hr.chain.join hnodup he (h.chain.update (hapart e hmem) s.start)
      · rw [List.getLast?_append_cons]
        exact h.last

/-- Lists over the same links without common nodes. -/
structure Piles {π : Type} (next : ν → Option ν) (f : π → SList ν) (L : π → List ν) : Prop where
  is : ∀ p, Is next (f p) (L p)
  nodup : ∀ p, (L p).Nodup
  apart : ∀ p q x, x ∈ L p → x ∈ L q → p = q

variable {π : Type} [DecidableEq π] {f : π → SList ν} {L : π → List ν} {p q : π}

omit [DecidableEq ν] in
/-- One list changes; its nodes are in no other one, and the links of the others stay. -/
theorem Piles.set (h : Piles next f L) (his : Is next' s l) (hnodup : l.Nodup)
    (hown : ∀ x ∈ l, ∀ o, o ≠ p → x ∉ L o) (frame : ∀ o, o ≠ p → ∀ x ∈ L o, next' x = next x) :
    Piles next' (Function.update f p s) (Function.update L p l) := by
  refine ⟨fun o => ?_, fun o => ?_, fun o o' x hx hx' => ?_⟩
  · by_cases ho : o = p
    · subst ho
      simpa using his
    · simpa [ho] using (h.is o).congr (frame o ho)
  · by_cases ho : o = p
    · subst ho
      simpa using hnodup
    · simpa [ho] using h.nodup o
  · by_cases ho : o = p
    · by_cases ho' : o' = p
      · rw [ho, ho']
      · subst ho
        simp only [Function.update_self, Function.update_of_ne ho'] at hx hx'
        exact absurd hx' (hown x hx o' ho')
    · by_cases ho' : o' = p
      · subst ho'
        simp only [Function.update_self, Function.update_of_ne ho] at hx hx'
        exact absurd hx (hown x hx' o ho)
      · simp only [Function.update_of_ne ho, Function.update_of_ne ho'] at hx hx'
        exact h.apart o o' x hx hx'

omit [DecidableEq ν] [DecidableEq π] in
theorem Piles.both_nodup (h : Piles next f L) (hpq : p ≠ q) : (L q ++ L p).Nodup :=
  List.nodup_append.mpr ⟨h.nodup q, h.nodup p, fun x hx _ hy he => hpq (h.apart p q x (he ▸ hy) hx)⟩

omit [DecidableEq ν] in
/-- Two lists exchange nodes. -/
theorem Piles.set₂ (h : Piles next f L) (hpq : p ≠ q) (his : Is next' s l) (hir : Is next' r k) (hnodup : (k ++ l).Nodup)
    (hown : ∀ x ∈ k ++ l, x ∈ L p ∨ x ∈ L q) (frame : ∀ x, x ∉ L p → x ∉ L q → next' x = next x) :
    Piles next' (Function.update (Function.update f p s) q r) (Function.update (Function.update L p l) q k) := by
  have other : ∀ {o x}, o ≠ p → o ≠ q → x ∈ L o → x ∉ L p ∧ x ∉ L q :=
    fun hp hq hx => ⟨fun hxp => hp (h.apart _ _ _ hx hxp), fun hxq => hq (h.apart _ _ _ hx hxq)⟩
  have hdisj := List.disjoint_of_nodup_append hnodup
  have hnk := (List.nodup_append.mp hnodup).1
  have hnl := (List.nodup_append.mp hnodup).2.1
  refine ⟨fun o => ?_, fun o => ?_, fun o o' x hx hx' => ?_⟩
  · by_cases hq : o = q
    · subst hq
      simpa using hir
    · by_cases hp : o = p
      · subst hp
        simpa [hq] using his
      · simpa [hp, hq] using (h.is o).congr fun x hx => frame x (other hp hq hx).1 (other hp hq hx).2
  · by_cases hq : o = q
    · subst hq
      simpa using hnk
    · by_cases hp : o = p
      · subst hp
        simpa [hq] using hnl
      · simpa [hp, hq] using h.nodup o
  · have place : ∀ {o x}, x ∈ Function.update (Function.update L p l) q k o →
        (o = q ∧ x ∈ k) ∨ (o = p ∧ x ∈ l) ∨ (o ≠ p ∧ o ≠ q ∧ x ∈ L o) := by
      intro o x hx
      by_cases hq : o = q
      · subst hq
        exact Or.inl ⟨rfl, by simpa using hx⟩
      · by_cases hp : o = p
        · subst hp
          exact Or.inr (Or.inl ⟨rfl, by simpa [hq] using hx⟩)
        · exact Or.inr (Or.inr ⟨hp, hq, by simpa [hp, hq] using hx⟩)
    have apart : ∀ {o x}, x ∈ k ++ l → ¬(o ≠ p ∧ o ≠ q ∧ x ∈ L o) := by
      rintro o x hx ⟨hp, hq, ho⟩
      rcases hown x hx with hxp | hxq
      · exact (other hp hq ho).1 hxp
      · exact (other hp hq ho).2 hxq
    rcases place hx with ⟨rfl, hk⟩ | ⟨rfl, hl⟩ | ho
    · rcases place hx' with ⟨rfl, _⟩ | ⟨rfl, hl⟩ | ho'
      · rfl
      · exact absurd hl (hdisj hk)
      · exact absurd ho' (apart (List.mem_append_left l hk))
    · rcases place hx' with ⟨rfl, hk⟩ | ⟨rfl, _⟩ | ho'
      · exact absurd hl (hdisj hk)
      · rfl
      · exact absurd ho' (apart (List.mem_append_right k hl))
    · rcases place hx' with ⟨rfl, hk⟩ | ⟨rfl, hl⟩ | ho'
      · exact absurd ho (apart (List.mem_append_left l hk))
      · exact absurd ho (apart (List.mem_append_right k hl))
      · exact h.apart o o' x ho.2.2 ho'.2.2

end SList

end Ven
