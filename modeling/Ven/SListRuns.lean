import Ven.Machine
import Ven.SList
import Mathlib.Data.Fintype.Basic

namespace Ven

inductive SListOp (ι ν : Type)
  | push (p : ι) (n : ν)
  | pop (p : ι)
  | popSome (p : ι) (cnt : Nat) (q : ι)
  | pushAll (p q : ι)
  | copy (p q : ι)
deriving DecidableEq

/-- The `next_` of every node, and the lists. `popped` records what `pop` returned. -/
structure SListHeap (ι ν : Type) where
  next : ν → Option ν
  list : ι → SList ν
  popped : List (Option ν)

namespace SListHeap

variable {ι ν : Type} [DecidableEq ι] [DecidableEq ν]

def init (next : ν → Option ν) : SListHeap ι ν := ⟨next, fun _ => SList.empty, []⟩

def apply (h : SListHeap ι ν) : SListOp ι ν → SListHeap ι ν
  | .push p n =>
    let (s, next) := (h.list p).push h.next n
    { h with next := next, list := Function.update h.list p s }
  | .pop p =>
    let (n, s, next) := (h.list p).pop h.next
    { next := next, list := Function.update h.list p s, popped := h.popped ++ [n] }
  | .popSome p cnt q =>
    let (s, r, next) := (h.list p).popSome h.next cnt (h.list q)
    { h with next := next, list := Function.update (Function.update h.list p s) q r }
  | .pushAll p q =>
    let (s, r, next) := (h.list p).pushAll h.next (h.list q)
    { h with next := next, list := Function.update (Function.update h.list p s) q r }
  -- `SList(SList& s)` takes the three fields and clears those of `s`
  | .copy p q => { h with list := Function.update (Function.update h.list p (h.list q)) q SList.empty }

def step (h : SListHeap ι ν) (op : SListOp ι ν) : Option (SListHeap ι ν) := some (apply h op)

end SListHeap

/-- The lists as sequences. `pushed` and `popped` record the nodes that were given to `push` and what `pop` returned. -/
structure Seqs (ι ν : Type) where
  list : ι → List ν
  pushed : List ν
  popped : List (Option ν)

namespace Seqs

variable {ι ν : Type} [DecidableEq ι]

def init : Seqs ι ν := ⟨fun _ => [], [], []⟩

def apply (a : Seqs ι ν) : SListOp ι ν → Seqs ι ν
  | .push p n => { a with list := Function.update a.list p (n :: a.list p), pushed := a.pushed ++ [n] }
  | .pop p => { a with list := Function.update a.list p (a.list p).tail, popped := a.popped ++ [(a.list p).head?] }
  | .popSome p cnt q =>
    { a with list := Function.update (Function.update a.list p ((a.list p).drop cnt)) q ((a.list p).take cnt) }
  | .pushAll p q => { a with list := Function.update (Function.update a.list p (a.list q ++ a.list p)) q [] }
  | .copy p q => { a with list := Function.update (Function.update a.list p (a.list q)) q [] }

def step (a : Seqs ι ν) (op : SListOp ι ν) : Option (Seqs ι ν) := some (apply a op)

/-- `push` gets a node that is in no list, `pop(cnt, s)` an empty list, `push(s)` another list; a list that is constructed
from another one was not there before. -/
def Legal (a : Seqs ι ν) : SListOp ι ν → Prop
  | .push _ n => ∀ q, n ∉ a.list q
  | .pop _ => True
  | .popSome _ _ q => a.list q = []
  | .pushAll p q => p ≠ q
  | .copy p q => p ≠ q ∧ a.list p = []

/-- A count of 32 bits is enough for every list. -/
def Small (a : Seqs ι ν) : Prop := ∀ p, (a.list p).length < 4294967296

instance [Fintype ι] [DecidableEq ν] (a : Seqs ι ν) : (op : SListOp ι ν) → Decidable (a.Legal op)
  | .push _ n => inferInstanceAs (Decidable (∀ q, n ∉ a.list q))
  | .pop _ => isTrue trivial
  | .popSome _ _ q => inferInstanceAs (Decidable (a.list q = []))
  | .pushAll p q => inferInstanceAs (Decidable (p ≠ q))
  | .copy p q => inferInstanceAs (Decidable (p ≠ q ∧ a.list p = []))

instance [Fintype ι] (a : Seqs ι ν) : Decidable a.Small :=
  inferInstanceAs (Decidable (∀ p, (a.list p).length < 4294967296))

/-- Each node was popped as often as it was pushed, once less if it is in a list. -/
def Conserves [DecidableEq ν] (a : Seqs ι ν) : Prop :=
  ∀ n, ((∃ p, n ∈ a.list p) → a.pushed.count n = a.popped.count (some n) + 1) ∧
    ((∀ p, n ∉ a.list p) → a.pushed.count n = a.popped.count (some n))

end Seqs

namespace SListHeap

open Machine SList

variable {ι ν : Type}

/-- The heap holds the sequences. -/
structure Implements (h : SListHeap ι ν) (a : Seqs ι ν) : Prop where
  cnt : ∀ p, (h.list p).cnt = (a.list p).length
  start : ∀ p, (h.list p).start = (a.list p).head?
  chain : ∀ p, Links.Spells h.next (h.list p).start (a.list p)
  last : ∀ p, (h.list p).end_ = (a.list p).getLast?
  null : ∀ p e, (h.list p).end_ = some e → h.next e = none
  nodup : ∀ p, (a.list p).Nodup
  apart : ∀ p q n, n ∈ a.list p → n ∈ a.list q → p = q
  popped : h.popped = a.popped

variable [DecidableEq ι] [DecidableEq ν] {h h' : SListHeap ι ν} {a a' : Seqs ι ν} {op : SListOp ι ν}
  {ops : List (SListOp ι ν)} {p q : ι} {n : ν}

/-- The lists hold the sequences, and nothing that was returned was returned wrongly. -/
structure Holds (h : SListHeap ι ν) (a : Seqs ι ν) : Prop where
  piles : Piles h.next h.list a.list
  popped : h.popped = a.popped

omit [DecidableEq ι] [DecidableEq ν] in
theorem holds_init (next : ν → Option ν) : Holds (init next : SListHeap ι ν) Seqs.init :=
  ⟨⟨fun _ => is_empty next, fun _ => List.nodup_nil, fun _ _ _ hx => absurd hx List.not_mem_nil⟩, rfl⟩

theorem Holds.push (hh : Holds h a) (hn : ∀ q, n ∉ a.list q) (hroom : (a.apply (.push p n)).Small) :
    Holds (h.apply (.push p n)) (a.apply (.push p n)) := by
  have hbits : (a.list p).length + 1 < 4294967296 := by
    have hp := hroom p
    simpa [Seqs.apply] using hp
  obtain ⟨s, v, heq, his⟩ := (hh.piles.is p).push (hn p) hbits
  have hpiles : Piles (Function.update h.next n v) (Function.update h.list p s)
      (Function.update a.list p (n :: a.list p)) := by
    refine hh.piles.set his (List.nodup_cons.mpr ⟨hn p, hh.piles.nodup p⟩) ?_ ?_
    · intro x hx o ho hxo
      rcases List.mem_cons.mp hx with rfl | hx
      · exact hn o hxo
      · exact ho (hh.piles.apart o p x hxo hx)
    · intro o _ x hx
      exact Function.update_of_ne (fun he : x = n => hn o (he ▸ hx)) _ _
  unfold apply
  simp only [heq]
  exact ⟨hpiles, hh.popped⟩

theorem Holds.pop (hh : Holds h a) (p : ι) : Holds (h.apply (.pop p)) (a.apply (.pop p)) := by
  have his := hh.piles.is p
  have hnodup := hh.piles.nodup p
  unfold apply Seqs.apply
  cases hl : a.list p with
  | nil =>
    rw [hl] at his
    have hlist : Function.update a.list p [] = a.list := by rw [← hl, Function.update_eq_self]
    simp only [hl, his.pop_nil, Function.update_eq_self, List.tail_nil, List.head?_nil, hlist]
    exact ⟨hh.piles, congrArg (· ++ [none]) hh.popped⟩
  | cons n l =>
    rw [hl] at his hnodup
    obtain ⟨hn, hnl⟩ := List.nodup_cons.mp hnodup
    obtain ⟨s, heq, his'⟩ := his.pop_cons hn
    have hmem : ∀ x ∈ n :: l, x ∈ a.list p := fun x hx => hl ▸ hx
    have hpiles : Piles (Function.update h.next n none) (Function.update h.list p s) (Function.update a.list p l) := by
      refine hh.piles.set his' hnl ?_ ?_
      · intro x hx o ho hxo
        exact ho (hh.piles.apart o p x hxo (hmem x (List.mem_cons_of_mem n hx)))
      · intro o ho x hx
        refine Function.update_of_ne (fun he : x = n => ho ?_) _ _
        exact hh.piles.apart o p x hx (hmem x (he ▸ List.mem_cons_self))
    simp only [hl, heq]
    exact ⟨hpiles, congrArg (· ++ [some n]) hh.popped⟩

theorem Holds.popSome (hh : Holds h a) (hq : a.list q = []) (p : ι) (cnt : Nat) :
    Holds (h.apply (.popSome p cnt q)) (a.apply (.popSome p cnt q)) := by
  have hnodup := hh.piles.nodup p
  have hempty : h.list q = SList.empty := by
    have hisq := hh.piles.is q
    rw [hq] at hisq
    exact hisq.eq_empty
  obtain ⟨s, r, next', heq, hs, hr, hframe⟩ := (hh.piles.is p).popSome hnodup cnt
  unfold apply Seqs.apply
  simp only [hempty, heq]
  by_cases hpq : p = q
  · subst hpq
    rw [hq, List.take_nil] at hr
    rw [hq, List.take_nil, Function.update_idem, Function.update_idem, hr.eq_empty]
    refine ⟨hh.piles.set (is_empty next') List.nodup_nil (fun x hx => absurd hx List.not_mem_nil) ?_, hh.popped⟩
    intro o _ x _
    exact hframe x (by rw [hq]; exact List.not_mem_nil)
  · refine ⟨hh.piles.set₂ hpq hs hr ?_ ?_ ?_, hh.popped⟩
    · rw [List.take_append_drop]
      exact hnodup
    · intro x hx
      rw [List.take_append_drop] at hx
      exact Or.inl hx
    · intro x hx _
      exact hframe x hx

theorem Holds.pushAll (hh : Holds h a) (hpq : p ≠ q) (hroom : (a.apply (.pushAll p q)).Small) :
    Holds (h.apply (.pushAll p q)) (a.apply (.pushAll p q)) := by
  have hbits : (a.list q).length + (a.list p).length < 4294967296 := by
    have hp := hroom p
    simpa [Seqs.apply, hpq] using hp
  have hapart : ∀ x ∈ a.list q, x ∉ a.list p := fun x hx hxp => hpq (hh.piles.apart p q x hxp hx)
  obtain ⟨s, next', heq, hs, hframe⟩ := (hh.piles.is p).pushAll (hh.piles.is q) (hh.piles.nodup q) hapart hbits
  unfold apply Seqs.apply
  simp only [heq]
  refine ⟨hh.piles.set₂ hpq hs (is_empty next') (hh.piles.both_nodup hpq) ?_ ?_, hh.popped⟩
  · intro x hx
    have hx' : x ∈ a.list q ++ a.list p := hx
    exact (List.mem_append.mp hx').symm
  · intro x _ hx
    exact hframe x hx

theorem Holds.copy (hh : Holds h a) (hpq : p ≠ q) : Holds (h.apply (.copy p q)) (a.apply (.copy p q)) := by
  refine ⟨hh.piles.set₂ hpq (hh.piles.is q) (is_empty h.next) (hh.piles.nodup q) ?_ ?_, hh.popped⟩
  · intro x hx
    exact Or.inr hx
  · intro x _ _
    rfl

theorem holds_step (hh : Holds h a) (hl : a.Legal op) (hroom : (a.apply op).Small) :
    Holds (h.apply op) (a.apply op) := by
  cases op with
  | push p n => exact hh.push hl hroom
  | pop p => exact hh.pop p
  | popSome p cnt q => exact hh.popSome hl p cnt
  | pushAll p q => exact hh.pushAll hl hroom
  | copy p q => exact hh.copy hl.1

omit [DecidableEq ι] [DecidableEq ν] in
theorem Holds.implements (hh : Holds h a) : Implements h a where
  cnt p := (hh.piles.is p).cnt
  start p := (hh.piles.is p).chain.head.symm
  chain p := (hh.piles.is p).chain
  last p := (hh.piles.is p).last
  null p _ he := (hh.piles.is p).chain.last_null ((hh.piles.is p).last ▸ he)
  nodup := hh.piles.nodup
  apart := hh.piles.apart
  popped := hh.popped

omit [DecidableEq ν] in
/-- Two lists that exchange nodes lose none. -/
theorem mem_update₂ {L : ι → List ν} {l k : List ν} {x : ν} (hpq : p ≠ q)
    (hown : x ∈ l ∨ x ∈ k ↔ x ∈ L p ∨ x ∈ L q) :
    (∃ o, x ∈ Function.update (Function.update L p l) q k o) ↔ ∃ o, x ∈ L o := by
  have hp : Function.update (Function.update L p l) q k p = l := by
    rw [Function.update_of_ne hpq, Function.update_self]
  have hq : Function.update (Function.update L p l) q k q = k := Function.update_self _ _ _
  have hother : ∀ o, o ≠ p → o ≠ q → Function.update (Function.update L p l) q k o = L o := by
    intro o hop hoq
    rw [Function.update_of_ne hoq, Function.update_of_ne hop]
  constructor
  · rintro ⟨o, ho⟩
    by_cases hop : o = p
    · rw [hop, hp] at ho
      exact (hown.mp (Or.inl ho)).elim (fun h => ⟨p, h⟩) (fun h => ⟨q, h⟩)
    · by_cases hoq : o = q
      · rw [hoq, hq] at ho
        exact (hown.mp (Or.inr ho)).elim (fun h => ⟨p, h⟩) (fun h => ⟨q, h⟩)
      · rw [hother o hop hoq] at ho
        exact ⟨o, ho⟩
  · rintro ⟨o, ho⟩
    have hl : x ∈ l → ∃ o, x ∈ Function.update (Function.update L p l) q k o := fun h => ⟨p, by rw [hp]; exact h⟩
    have hk : x ∈ k → ∃ o, x ∈ Function.update (Function.update L p l) q k o := fun h => ⟨q, by rw [hq]; exact h⟩
    by_cases hop : o = p
    · exact (hown.mpr (Or.inl (hop ▸ ho))).elim hl hk
    · by_cases hoq : o = q
      · exact (hown.mpr (Or.inr (hoq ▸ ho))).elim hl hk
      · exact ⟨o, (hother o hop hoq) ▸ ho⟩

omit [DecidableEq ν] in
/-- A bulk move or a construction leaves every node in some list. -/
theorem mem_apply (hl : a.Legal op) (hop : ∀ p n, op ≠ .push p n) (hpop : ∀ p, op ≠ .pop p) (x : ν) :
    (∃ o, x ∈ (a.apply op).list o) ↔ ∃ o, x ∈ a.list o := by
  cases op with
  | push p n => exact absurd rfl (hop p n)
  | pop p => exact absurd rfl (hpop p)
  | popSome p cnt q =>
    have hq : a.list q = [] := hl
    unfold Seqs.apply
    simp only
    by_cases hpq : p = q
    · subst hpq
      rw [hq, List.take_nil, List.drop_nil, Function.update_idem, ← hq, Function.update_eq_self]
    · refine mem_update₂ hpq ?_
      rw [hq, or_comm, ← List.mem_append, List.take_append_drop]
      simp
  | pushAll p q =>
    refine mem_update₂ hl ?_
    rw [List.mem_append]
    simp [or_comm]
  | copy p q =>
    refine mem_update₂ hl.1 ?_
    rw [hl.2]
    simp

omit [DecidableEq ι] in
theorem conserves_congr (hc : a.Conserves) (hmem : ∀ n, (∃ p, n ∈ a'.list p) ↔ ∃ p, n ∈ a.list p)
    (hpushed : a'.pushed = a.pushed) (hpopped : a'.popped = a.popped) : a'.Conserves := by
  intro n
  rw [hpushed, hpopped, hmem, ← not_exists, hmem, not_exists]
  exact hc n

theorem conserves_push (hc : a.Conserves) (hn : ∀ q, n ∉ a.list q) (p : ι) : (a.apply (.push p n)).Conserves := by
  have hcount : ∀ m, (a.apply (.push p n)).pushed.count m = a.pushed.count m + if n = m then 1 else 0 := by
    intro m
    unfold Seqs.apply
    rw [List.count_append, List.count_singleton]
    simp
  have hpopped : (a.apply (.push p n)).popped = a.popped := rfl
  have hself : (a.apply (.push p n)).list p = n :: a.list p := Function.update_self _ _ _
  have hother : ∀ o, o ≠ p → (a.apply (.push p n)).list o = a.list o := fun o ho => Function.update_of_ne ho _ _
  intro m
  rw [hcount, hpopped]
  by_cases hm : n = m
  · subst hm
    rw [if_pos rfl]
    refine ⟨fun _ => congrArg (· + 1) ((hc n).2 hn), fun h => ?_⟩
    exact absurd (by rw [hself]; exact List.mem_cons_self) (h p)
  · rw [if_neg hm, Nat.add_zero]
    have hmem : ∀ o, m ∈ (a.apply (.push p n)).list o ↔ m ∈ a.list o := by
      intro o
      by_cases ho : o = p
      · rw [ho, hself, List.mem_cons]
        exact or_iff_right fun he => hm he.symm
      · rw [hother o ho]
    simp only [hmem]
    exact hc m

theorem conserves_pop (hc : a.Conserves) (hh : Holds h a) (p : ι) : (a.apply (.pop p)).Conserves := by
  have hself : (a.apply (.pop p)).list p = (a.list p).tail := Function.update_self _ _ _
  have hother : ∀ o, o ≠ p → (a.apply (.pop p)).list o = a.list o := fun o ho => Function.update_of_ne ho _ _
  have hpushed : (a.apply (.pop p)).pushed = a.pushed := rfl
  have hpopped : (a.apply (.pop p)).popped = a.popped ++ [(a.list p).head?] := rfl
  have hnodup := hh.piles.nodup p
  intro m
  rw [hpushed, hpopped, List.count_append, List.count_singleton]
  by_cases hm : (a.list p).head? = some m
  · obtain ⟨l, hl⟩ := List.head?_eq_some_iff.mp hm
    have hmp : m ∈ a.list p := by rw [hl]; exact List.mem_cons_self
    rw [hl] at hnodup
    rw [if_pos (beq_iff_eq.mpr hm)]
    refine ⟨fun ⟨o, ho⟩ => ?_, fun _ => (hc m).1 ⟨p, hmp⟩⟩
    by_cases hop : o = p
    · rw [hop, hself, hl] at ho
      exact absurd ho (List.nodup_cons.mp hnodup).1
    · rw [hother o hop] at ho
      exact absurd (hh.piles.apart o p m ho hmp) hop
  · rw [if_neg fun he => hm (beq_iff_eq.mp he), Nat.add_zero]
    have hmem : ∀ o, m ∈ (a.apply (.pop p)).list o ↔ m ∈ a.list o := by
      intro o
      by_cases ho : o = p
      · rw [ho, hself]
        cases hl : a.list p with
        | nil => rfl
        | cons n l =>
          have hne : m ≠ n := fun he => hm (by rw [hl, he]; rfl)
          exact ⟨List.mem_cons_of_mem n, fun h => (List.mem_cons.mp h).resolve_left hne⟩
      · rw [hother o ho]
    simp only [hmem]
    exact hc m

theorem conserves_step (hc : a.Conserves) (hh : Holds h a) (hl : a.Legal op) : (a.apply op).Conserves := by
  cases op with
  | push p n => exact conserves_push hc hl p
  | pop p => exact conserves_pop hc hh p
  | popSome p cnt q => exact conserves_congr hc (mem_apply hl (by intro _ _ h; cases h) (by intro _ h; cases h)) rfl rfl
  | pushAll p q => exact conserves_congr hc (mem_apply hl (by intro _ _ h; cases h) (by intro _ h; cases h)) rfl rfl
  | copy p q => exact conserves_congr hc (mem_apply hl (by intro _ _ h; cases h) (by intro _ h; cases h)) rfl rfl

theorem holds_exec (hh : Holds h a) (hc : a.Conserves) (hl : Along Seqs.step Seqs.Legal a ops)
    (hroom : Throughout Seqs.step Seqs.Small a ops) :
    ∃ h' a', exec step h ops = some h' ∧ exec Seqs.step a ops = some a' ∧ Holds h' a' ∧ a'.Conserves := by
  induction ops generalizing h a with
  | nil => exact ⟨h, a, rfl, rfl, hh, hc⟩
  | cons op ops ih =>
    have hs : Seqs.step a op = some (a.apply op) := rfl
    obtain ⟨_, hrest⟩ := (throughout_cons hs).mp hroom
    have hsmall : (a.apply op).Small := hrest [] _ List.nil_prefix rfl
    exact ih (holds_step hh hl.1 hsmall) (conserves_step hc hh hl.1) (hl.2 _ rfl) hrest

omit [DecidableEq ι] in
theorem conserves_init : (Seqs.init : Seqs ι ν).Conserves :=
  fun _ => ⟨fun ⟨_, hp⟩ => absurd hp List.not_mem_nil, fun _ => rfl⟩

theorem implements_seqs (next : ν → Option ν) (hl : Along Seqs.step Seqs.Legal Seqs.init ops)
    (hroom : Throughout Seqs.step Seqs.Small Seqs.init ops) :
    ∃ h a, exec step (init next : SListHeap ι ν) ops = some h ∧ exec Seqs.step Seqs.init ops = some a ∧
      Implements h a ∧ a.Conserves := by
  obtain ⟨h, a, hh, ha, hholds, hc⟩ := holds_exec (holds_init next) conserves_init hl hroom
  exact ⟨h, a, hh, ha, hholds.implements, hc⟩

/-- Three nodes are pushed, two of them move to the other list and back in front of the third, all go over to the other
list, and one is popped. -/
def moves : List (SListOp Bool Nat) :=
  [.push false 1, .push false 2, .push false 3, .popSome false 2 true, .pushAll false true, .copy true false, .pop true]

theorem implements_seqs_two : ∃ h a, exec step (init (fun _ => none) : SListHeap Bool Nat) moves = some h ∧
    exec Seqs.step Seqs.init moves = some a ∧ Implements h a ∧ a.Conserves := by
  have run : ∃ a, exec Seqs.step (Seqs.init : Seqs Bool Nat) moves = some a ∧ a.Small := ⟨_, rfl, by decide⟩
  obtain ⟨a, run, hsmall⟩ := run
  exact implements_seqs (fun _ => none) (by decide) (throughout_of_along (by decide) run hsmall)

theorem cnt_push (s : SList ν) (next : ν → Option ν) (n : ν) : (s.push next n).1.cnt = add32 s.cnt 1 := by
  unfold SList.push
  split
  next => rfl
  next => rfl

/-- Pushing new nodes one after the other: the list has their number, and the count the low 32 bits of it. -/
theorem pushes {h : SListHeap Unit Nat} {a : Seqs Unit Nat} {m : Nat} (k : Nat) (hless : ∀ n ∈ a.list (), n < m)
    (hcnt : (h.list ()).cnt = (a.list ()).length % 4294967296) :
    Along Seqs.step Seqs.Legal a ((List.range' m k).map (SListOp.push ())) ∧
      ∃ h' a', exec step h ((List.range' m k).map (SListOp.push ())) = some h' ∧
        exec Seqs.step a ((List.range' m k).map (SListOp.push ())) = some a' ∧
        (h'.list ()).cnt = (a'.list ()).length % 4294967296 ∧ (a'.list ()).length = (a.list ()).length + k := by
  induction k generalizing h a m with
  | zero => exact ⟨trivial, h, a, rfl, rfl, hcnt, rfl⟩
  | succ k ih =>
    have hlist : (a.apply (.push () m)).list () = m :: a.list () := rfl
    have hpush : (h.apply (.push () m)).list () = ((h.list ()).push h.next m).1 := rfl
    have hfresh : ∀ q, m ∉ a.list q := fun _ hm => Nat.lt_irrefl m (hless m hm)
    have hless' : ∀ n ∈ (a.apply (.push () m)).list (), n < m + 1 := by
      intro n hn
      rw [hlist] at hn
      rcases List.mem_cons.mp hn with rfl | hn
      · omega
      · have hlt := hless n hn
        omega
    have hcnt' : ((h.apply (.push () m)).list ()).cnt = ((a.apply (.push () m)).list ()).length % 4294967296 := by
      rw [hpush, cnt_push, add32_eq, hcnt, hlist, List.length_cons]
      omega
    obtain ⟨hl, h', a', hh, ha, hc, hlen⟩ := ih hless' hcnt'
    rw [hlist, List.length_cons] at hlen
    rw [List.range'_succ, List.map_cons]
    exact ⟨along_cons hfresh rfl hl, h', a', hh, ha, hc, by omega⟩

/-- A list of 2^32 nodes counts none. -/
theorem not_implements_pushes :
    Along Seqs.step Seqs.Legal Seqs.init ((List.range' 0 4294967296).map (SListOp.push ())) ∧
      ∃ h a, exec step (init (fun _ => none) : SListHeap Unit Nat) ((List.range' 0 4294967296).map (SListOp.push ())) =
          some h ∧
        exec Seqs.step Seqs.init ((List.range' 0 4294967296).map (SListOp.push ())) = some a ∧
        (h.list ()).cnt = 0 ∧ (a.list ()).length = 4294967296 ∧ ¬Implements h a := by
  obtain ⟨hl, h, a, hh, ha, hcnt, hlen⟩ := pushes (h := init fun _ => none) (a := Seqs.init) (m := 0) 4294967296
    (fun _ hn => absurd hn List.not_mem_nil) rfl
  have hlen' : (a.list ()).length = 4294967296 := hlen
  rw [hlen'] at hcnt
  refine ⟨hl, h, a, hh, ha, hcnt, hlen', ?_⟩
  intro himp
  have heq := himp.cnt ()
  rw [hcnt, hlen'] at heq
  omega

end SListHeap

end Ven
