import Ven.PoolContract
import Ven.Machine

namespace Ven

variable {σ : Type}

/-- Variables of type `Buf`, and the owners that took a block over with `dettach`. -/
structure BufVars (σ : Type) where
  ram : Ram σ
  bufs : List Buf
  dettached : List Nat

inductive BufOp
  | get (size : Nat)
  | copy (i : Nat)
  | assign (i j : Nat)
  | swap (i j : Nat)
  | dettach (i : Nat)
  | relRef (k : Nat)
  | destroy (i : Nat)
deriving DecidableEq

/-- One operation of a program on its `Buf` variables; `none` when it names a variable that
does not exist. -/
def BufVars.step (P : IMemPool σ) (s : BufVars σ) : BufOp → Option (BufVars σ)
  | .get size =>
    let (b, r) := P.get s.ram size
    some { s with ram := r, bufs := b :: s.bufs }
  | .copy i => do
    let cls ← s.bufs[i]?
    let (b, r) := Buf.copy s.ram cls
    pure { s with ram := r, bufs := b :: s.bufs }
  | .assign i j => do
    let b ← s.bufs[i]?
    let cls ← s.bufs[j]?
    if i = j then pure s else
      let (b', r) := Buf.assign P s.ram b cls
      pure { s with ram := r, bufs := s.bufs.set i b' }
  | .swap i j => do
    let a ← s.bufs[i]?
    let b ← s.bufs[j]?
    pure { s with bufs := (s.bufs.set i b).set j a }
  | .dettach i => do
    let b ← s.bufs[i]?
    let (mem, b') := b.dettach
    pure { s with bufs := s.bufs.set i b', dettached := mem.toList ++ s.dettached }
  | .relRef k => do
    let mem ← s.dettached[k]?
    pure { s with ram := P.relRef s.ram mem, dettached := s.dettached.eraseIdx k }
  | .destroy i => do
    let b ← s.bufs[i]?
    pure { s with ram := Buf.destroy P s.ram b, bufs := s.bufs.eraseIdx i }

/-- The references of all variables. -/
def heldBy (bufs : List Buf) : Multiset Nat := (bufs.map Buf.held).sum

def BufVars.holders (s : BufVars σ) : Multiset Nat := heldBy s.bufs + (s.dettached : Multiset Nat)

@[simp] theorem heldBy_nil : heldBy [] = 0 := rfl

@[simp] theorem heldBy_cons (b : Buf) (bufs : List Buf) : heldBy (b :: bufs) = b.held + heldBy bufs := by
  simp [heldBy]

/-- A variable can be singled out: what the others hold is not touched by changing it. -/
theorem heldBy_split {bufs : List Buf} {i : Nat} {b : Buf} (h : bufs[i]? = some b) :
    heldBy bufs = b.held + heldBy (bufs.eraseIdx i) ∧
      ∀ b', heldBy (bufs.set i b') = b'.held + heldBy (bufs.eraseIdx i) := by
  induction bufs generalizing i with
  | nil => simp at h
  | cons x xs ih =>
    cases i with
    | zero =>
      have he : x = b := by simpa using h
      subst he
      simp
    | succ i =>
      obtain ⟨ha, hs⟩ := ih (by simpa using h)
      refine ⟨?_, ?_⟩
      · simp only [heldBy_cons, List.eraseIdx_cons_succ, ha]
        exact add_left_comm _ _ _
      · intro b'
        simp only [List.set_cons_succ, heldBy_cons, List.eraseIdx_cons_succ, hs b']
        exact add_left_comm _ _ _

theorem heldBy_append (xs ys : List Buf) : heldBy (xs ++ ys) = heldBy xs + heldBy ys := by
  simp [heldBy]

theorem heldBy_mem {bufs : List Buf} {b : Buf} (h : b ∈ bufs) : ∃ rest, heldBy bufs = b.held + rest := by
  obtain ⟨n, hn⟩ := List.mem_iff_getElem?.mp h
  exact ⟨_, (heldBy_split hn).1⟩

theorem mem_heldBy {bufs : List Buf} {b : Buf} {id : Nat} (h : b ∈ bufs) (hid : b.mem = some id) :
    id ∈ heldBy bufs := by
  obtain ⟨rest, hrest⟩ := heldBy_mem h
  rw [hrest, Buf.held, hid]
  simp

theorem card_heldBy_le (bufs : List Buf) : (heldBy bufs).card ≤ bufs.length := by
  induction bufs with
  | nil => exact Nat.le_refl 0
  | cons b bufs ih =>
    have hb : b.held.card ≤ 1 := by
      rw [Buf.held, Multiset.coe_card]
      cases b.mem with
      | none => exact Nat.zero_le 1
      | some id => exact Nat.le_refl 1
    rw [heldBy_cons, Multiset.card_add, List.length_cons]
    omega

theorem coe_eraseIdx {xs : List Nat} {k : Nat} {x : Nat} (h : xs[k]? = some x) :
    (xs : Multiset Nat) = x ::ₘ (xs.eraseIdx k : Multiset Nat) := by
  obtain ⟨hk, he⟩ := List.getElem?_eq_some_iff.mp h
  subst he
  exact Multiset.coe_eq_coe.mpr (List.getElem_cons_eraseIdx_perm hk).symm

theorem heldBy_swap {bufs : List Buf} {i j : Nat} {a b : Buf} (ha : bufs[i]? = some a)
    (hb : bufs[j]? = some b) : heldBy ((bufs.set i b).set j a) = heldBy bufs := by
  obtain ⟨hi, hseti⟩ := heldBy_split ha
  by_cases hij : i = j
  · subst hij
    cases Option.some.inj (ha.symm.trans hb)
    rw [List.set_set, hseti, hi]
  · have hb' : (bufs.set i b)[j]? = some b := by rw [List.getElem?_set_ne hij]; exact hb
    obtain ⟨hj, hsetj⟩ := heldBy_split hb'
    have hcancel : b.held + heldBy ((bufs.set i b).eraseIdx j) = b.held + heldBy (bufs.eraseIdx i) :=
      hj.symm.trans (hseti b)
    rw [hsetj, hi, add_left_cancel hcancel]

/-- The pool's contract is kept, and the blocks `K` of others are neither changed nor got hold of. -/
def KeepsOthers {P : IMemPool σ} (C : PoolContract P) (K : Multiset Nat) (s s' : BufVars σ) : Prop :=
  C.Inv s'.ram (s'.holders + K) ∧ ∀ k ∈ K, SameBlock s.ram.heap s'.ram.heap k ∧ (k ∉ s.holders → k ∉ s'.holders)

section

variable {P : IMemPool σ} (C : PoolContract P) {s s' : BufVars σ} {K : Multiset Nat} {b cls : Buf} {i j mem : Nat}

/-- An operation that only moves blocks between the variables. -/
theorem bufVars_moved (h : C.Inv s.ram (s.holders + K)) (hram : s'.ram = s.ram) (hh : s'.holders = s.holders) :
    KeepsOthers C K s s' := by
  unfold KeepsOthers
  rw [hram, hh]
  refine ⟨h, fun k hk => ⟨?_, fun hno => hno⟩⟩
  obtain ⟨n, hn⟩ := C.live h (Multiset.mem_add.mpr (Or.inr hk))
  exact SameBlock.of_eq hn rfl

/-- An operation after which the variables hold `H`. -/
theorem bufVars_changed {H : Multiset Nat} (hh : s'.holders = H) (hi : C.Inv s'.ram (H + K))
    (hsame : ∀ k ∈ K, SameBlock s.ram.heap s'.ram.heap k) (hold : ∀ k ∈ K, k ∈ H → k ∈ s.holders) :
    KeepsOthers C K s s' := by
  unfold KeepsOthers
  rw [hh]
  exact ⟨hi, fun k hk => ⟨hsame k hk, fun hno hin => hno (hold k hk hin)⟩⟩

theorem bufVars_get (h : C.Inv s.ram (s.holders + K)) (size : Nat) :
    KeepsOthers C K s { s with ram := (P.get s.ram size).2, bufs := (P.get s.ram size).1 :: s.bufs } := by
  obtain ⟨id, m, hb, hid, _, _, hi, hsame⟩ := C.get size h
  have hin : ∀ k ∈ K, k ∈ s.holders + K := fun k hk => Multiset.mem_add.mpr (Or.inr hk)
  have hh : heldBy ((P.get s.ram size).1 :: s.bufs) + (s.dettached : Multiset Nat) = id ::ₘ s.holders := by
    rw [heldBy_cons, hb, Buf.held_some, add_assoc]
    rfl
  refine bufVars_changed C hh (by rw [Multiset.cons_add]; exact hi) (fun k hk => ?_) fun k hk hkh => ?_
  · obtain ⟨n, hn⟩ := C.live h (hin k hk)
    exact SameBlock.of_eq hn (hsame k (hin k hk))
  · rcases Multiset.mem_cons.mp hkh with rfl | hkh
    · exact absurd (hin k hk) hid
    · exact hkh

theorem bufVars_copy (h : C.Inv s.ram (s.holders + K)) (hc : s.bufs[i]? = some cls) :
    KeepsOthers C K s { s with ram := (Buf.copy s.ram cls).2, bufs := (Buf.copy s.ram cls).1 :: s.bufs } := by
  have hsplit := (heldBy_split hc).1
  have hi : C.Inv s.ram (cls.held + (heldBy (s.bufs.eraseIdx i) + s.dettached + K)) := by
    rwa [BufVars.holders, hsplit, add_assoc, add_assoc, ← add_assoc (heldBy _)] at h
  obtain ⟨hk, hsame⟩ := C.copy_spec hi
  have he := Buf.copy_held s.ram cls
  have hh : heldBy ((Buf.copy s.ram cls).1 :: s.bufs) + (s.dettached : Multiset Nat) = cls.held + s.holders := by
    rw [heldBy_cons, he, add_assoc]
    rfl
  refine bufVars_changed C hh ?_ (fun k hk' => hsame k (by simp [hk'])) fun k _ hin => ?_
  · rw [BufVars.holders, hsplit, add_assoc, add_assoc (cls.held), add_assoc (cls.held)]
    rwa [he] at hk
  · rcases Multiset.mem_add.mp hin with hin | hin
    · rw [BufVars.holders, hsplit]
      simp [hin]
    · exact hin

theorem bufVars_assign (h : C.Inv s.ram (s.holders + K)) (hb : s.bufs[i]? = some b) (hc : s.bufs[j]? = some cls)
    (hne : i ≠ j) : KeepsOthers C K s
      { s with ram := (Buf.assign P s.ram b cls).2, bufs := s.bufs.set i (Buf.assign P s.ram b cls).1 } := by
  obtain ⟨hsplit, hset⟩ := heldBy_split hb
  obtain ⟨rest, hrest⟩ : ∃ rest, heldBy (s.bufs.eraseIdx i) = cls.held + rest := by
    have hmem : cls ∈ s.bufs.eraseIdx i :=
      List.mem_eraseIdx_iff_getElem?.mpr ⟨j, Ne.symm hne, hc⟩
    exact heldBy_mem hmem
  have hold : s.holders = b.held + (cls.held + (rest + s.dettached)) := by
    rw [BufVars.holders, hsplit, hrest, add_assoc, add_assoc]
  have hi : C.Inv s.ram (b.held + (cls.held + (rest + s.dettached + K))) := by
    rwa [hold, add_assoc, add_assoc] at h
  obtain ⟨he, hk, hsame⟩ := C.assign_spec hi
  have hh : heldBy (s.bufs.set i (Buf.assign P s.ram b cls).1) + (s.dettached : Multiset Nat) =
      cls.held + (cls.held + (rest + s.dettached)) := by
    rw [he, hset, hrest, add_assoc, add_assoc]
  refine bufVars_changed C hh (by rwa [add_assoc, add_assoc]) (fun k hk' => hsame k (by simp [hk'])) fun k _ hin => ?_
  rw [hold]
  simp only [Multiset.mem_add] at hin ⊢
  rcases hin with hin | hin
  · exact Or.inr (Or.inl hin)
  · exact Or.inr hin

theorem bufVars_relRef (h : C.Inv s.ram (s.holders + K)) (hm : s.dettached[i]? = some mem) :
    KeepsOthers C K s { s with ram := P.relRef s.ram mem, dettached := s.dettached.eraseIdx i } := by
  have hold : s.holders = mem ::ₘ (heldBy s.bufs + (s.dettached.eraseIdx i : Multiset Nat)) := by
    rw [BufVars.holders, coe_eraseIdx hm, Multiset.add_cons]
  rw [hold, Multiset.cons_add] at h
  obtain ⟨hi, hsame⟩ := C.relRef h
  refine bufVars_changed C rfl hi (fun k hk => hsame k (by simp [hk])) fun k _ hin => ?_
  rw [hold]
  exact Multiset.mem_cons_of_mem hin

theorem bufVars_destroy (h : C.Inv s.ram (s.holders + K)) (hb : s.bufs[i]? = some b) :
    KeepsOthers C K s { s with ram := Buf.destroy P s.ram b, bufs := s.bufs.eraseIdx i } := by
  have hold : s.holders = b.held + (heldBy (s.bufs.eraseIdx i) + s.dettached) := by
    rw [BufVars.holders, (heldBy_split hb).1, add_assoc]
  rw [hold, add_assoc] at h
  obtain ⟨hi, hsame⟩ := C.destroy_spec h
  refine bufVars_changed C rfl hi (fun k hk => hsame k (by simp [hk])) fun k _ hin => ?_
  rw [hold]
  exact Multiset.mem_add.mpr (Or.inr hin)

/-- Every operation of a program on its variables keeps the pool's contract, and neither changes
nor gets hold of the blocks `K` that only others hold. -/
theorem bufVars_step_frame {op : BufOp} (h : C.Inv s.ram (s.holders + K)) (hs : s.step P op = some s') :
    KeepsOthers C K s s' := by
  cases op with
  | get size =>
    cases Option.some.inj hs
    exact bufVars_get C h size
  | copy i =>
    obtain ⟨cls, hc, hs⟩ := Option.bind_eq_some_iff.mp hs
    cases Option.some.inj hs
    exact bufVars_copy C h hc
  | assign i j =>
    obtain ⟨b, hb, hs⟩ := Option.bind_eq_some_iff.mp hs
    obtain ⟨cls, hc, hs⟩ := Option.bind_eq_some_iff.mp hs
    split at hs
    next =>
      cases Option.some.inj hs
      exact bufVars_moved C h rfl rfl
    next hne =>
      cases Option.some.inj hs
      exact bufVars_assign C h hb hc hne
  | swap i j =>
    obtain ⟨a, ha, hs⟩ := Option.bind_eq_some_iff.mp hs
    obtain ⟨b, hb, hs⟩ := Option.bind_eq_some_iff.mp hs
    cases Option.some.inj hs
    have hh : heldBy ((s.bufs.set i b).set j a) = heldBy s.bufs := heldBy_swap ha hb
    exact bufVars_moved C h rfl (congrArg (· + (s.dettached : Multiset Nat)) hh)
  | dettach i =>
    obtain ⟨b, hb, hs⟩ := Option.bind_eq_some_iff.mp hs
    cases Option.some.inj hs
    obtain ⟨hsplit, hset⟩ := heldBy_split hb
    have hh : heldBy (s.bufs.set i Buf.null) + ((b.mem.toList ++ s.dettached : List Nat) : Multiset Nat) =
        s.holders := by
      rw [hset, Buf.held_null, zero_add, BufVars.holders, hsplit, ← Multiset.coe_add, Buf.held]
      rw [add_comm (b.mem.toList : Multiset Nat) (heldBy _), add_assoc]
    exact bufVars_moved C h rfl hh
  | relRef k =>
    obtain ⟨mem, hm, hs⟩ := Option.bind_eq_some_iff.mp hs
    cases Option.some.inj hs
    exact bufVars_relRef C h hm
  | destroy i =>
    obtain ⟨b, hb, hs⟩ := Option.bind_eq_some_iff.mp hs
    cases Option.some.inj hs
    exact bufVars_destroy C h hb

end

theorem bufVars_step_inv {P : IMemPool σ} (C : PoolContract P) {s s' : BufVars σ} {op : BufOp}
    (h : C.Inv s.ram s.holders) (hs : s.step P op = some s') : C.Inv s'.ram s'.holders := by
  have hf := (bufVars_step_frame C (K := 0) (by rwa [add_zero]) hs).1
  rwa [add_zero] at hf

end Ven
